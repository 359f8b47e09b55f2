import Custody.Proofs.Ledger.Consistency
import Custody.Proofs.Records.Roles
import Custody.Proofs.Reporters

/-!
# Where the roles in force come from

Offers are made, replaced, narrowed and answered, reporters are appointed and dismissed, and owners
change.  Through all of this, every role in force goes back to the owner: an asset is handed over
only on the last offer of its owner, and each of its reporters was let in by the present owner,
after the last change of owner, on the terms that stood at that time.

* `Offered`: the last offer on an asset to a recipient, not answered since.
* `Traced`: where a reporter comes from.
* `Records.History.offered`, `Records.History.justified`: what holds along a history.
* `Ledger.roles_from_owner`: **every role in force was given by the owner.**
-/

namespace Custody

/-! ### Terms -/

/-- The list holds in order, each once, just the names with a property. -/
structure Lists (names : List PropertyName) (p : PropertyName → Prop) : Prop where
  ascending : names.Pairwise fun n n' => compare n n' = .lt
  mem_iff : ∀ n, n ∈ names ↔ p n

theorem lists_normalizeNames {names : List PropertyName} {p : PropertyName → Prop}
    (h : ∀ n, n ∈ names ↔ p n) : Lists (normalizeNames names) p where
  ascending := normalizeNames_ascending names
  mem_iff n := mem_normalizeNames.trans (h n)

theorem Lists.filter {names : List PropertyName} {p : PropertyName → Prop} (h : Lists names p)
    (keep : PropertyName → Bool) : Lists (names.filter keep) fun n => p n ∧ keep n = true where
  ascending := h.ascending.filter keep
  mem_iff n := List.mem_filter.trans (and_congr_left' (h.mem_iff n))

theorem Lists.congr {names : List PropertyName} {p q : PropertyName → Prop} (h : Lists names p)
    (hpq : ∀ n, p n ↔ q n) : Lists names q :=
  ⟨h.ascending, fun n => (h.mem_iff n).trans (hpq n)⟩

/-! ### Offers -/

/-- The last of the envelopes that offers a role on the asset to the recipient is by the issuer, on
the given terms, and none of the later ones answers it. -/
structure Offered (es : List Envelope) (id : AssetId) (recipient issuer : AccountId)
    (role : OfferRole) (given : List PropertyName) (later : List Envelope) : Prop where
  made : ∃ earlier now, es = earlier ++ ⟨issuer, now, .createOffer id recipient role given⟩ :: later
  last : ∀ d ∈ later, ¬ d.message.Offers id recipient ∧ ¬ d.message.Answers id recipient

/-- None of the envelopes withdraws the name from the offer to the recipient. -/
def Stands (later : List Envelope) (id : AssetId) (recipient : AccountId) (name : PropertyName) :
    Prop :=
  ∀ d ∈ later, ¬ d.message.Withdraws id recipient name

theorem stands_snoc {later : List Envelope} {id : AssetId} {recipient : AccountId}
    {name : PropertyName} {e : Envelope} : Stands (later ++ [e]) id recipient name ↔
      Stands later id recipient name ∧ ¬ e.message.Withdraws id recipient name := by
  simp only [Stands, List.forall_mem_append, List.forall_mem_singleton]

theorem Offered.snoc {es : List Envelope} {id : AssetId} {recipient issuer : AccountId}
    {role : OfferRole} {given : List PropertyName} {later : List Envelope}
    (h : Offered es id recipient issuer role given later) {e : Envelope}
    (hoffers : ¬ e.message.Offers id recipient) (hanswers : ¬ e.message.Answers id recipient) :
    Offered (es ++ [e]) id recipient issuer role given (later ++ [e]) := by
  obtain ⟨⟨earlier, now, rfl⟩, hlast⟩ := h
  refine ⟨⟨earlier, now, List.append_assoc _ _ _⟩, ?_⟩
  rw [List.forall_mem_append, List.forall_mem_singleton]
  exact ⟨hlast, hoffers, hanswers⟩

/-! ### Reporters -/

/-- The envelope made the reporter one, when the envelopes before it had been applied: the owner
appointed the account, or the account accepted what the owner had offered it last, less the names
withdrawn since. -/
inductive Granted (es : List Envelope) (owner : AccountId) (id : AssetId) (r : Reporter) :
    Envelope → Prop where
  | appointed {given : List PropertyName} (hnames : Lists r.names (· ∈ given)) :
      Granted es owner id r ⟨owner, r.createdAt, .createReporter id r.account given⟩
  | accepted {given : List PropertyName} {later : List Envelope}
      (hoffered : Offered es id r.account owner .reporter given later)
      (hnames : Lists r.names fun n => n ∈ given ∧ Stands later id r.account n) :
      Granted es owner id r ⟨r.account, r.createdAt, .answerOffer id r.account .accept⟩

/-- The asset belongs to the account in a store. -/
def Belongs (s : Store) (id : AssetId) (owner : AccountId) : Prop :=
  ∃ a, (Registry.find? id).run s = .ok (some a) ∧ a.owner = owner

/-- The reporter was made one by an envelope of the trace, no later one decides whether the account
is a reporter, and the asset has belonged to its owner from that envelope on. -/
def Traced (tr : List (Envelope × Store)) (owner : AccountId) (id : AssetId) (r : Reporter) :
    Prop :=
  ∃ earlier g s later, tr = earlier ++ (g, s) :: later ∧
    Granted (earlier.map Prod.fst) owner id r g ∧
    (∀ d ∈ later, ¬ d.1.message.Decides id r.account) ∧
    ∀ d ∈ (g, s) :: later, Belongs d.2 id owner

theorem Traced.last {tr : List (Envelope × Store)} {owner : AccountId} {id : AssetId}
    {r : Reporter} {g : Envelope} {s : Store} (hg : Granted (tr.map Prod.fst) owner id r g)
    (hs : Belongs s id owner) : Traced (tr ++ [(g, s)]) owner id r :=
  ⟨tr, g, s, [], rfl, hg, fun _ hd => absurd hd List.not_mem_nil,
    List.forall_mem_singleton.mpr hs⟩

theorem Traced.snoc {tr : List (Envelope × Store)} {owner : AccountId} {id : AssetId}
    {r : Reporter} (h : Traced tr owner id r) {e : Envelope} {s : Store}
    (he : ¬ e.message.Decides id r.account) (hs : Belongs s id owner) :
    Traced (tr ++ [(e, s)]) owner id r := by
  obtain ⟨earlier, g, t, later, rfl, hg, hlater, howner⟩ := h
  refine ⟨earlier, g, t, later ++ [(e, s)], List.append_assoc _ _ _, hg, ?_, ?_⟩
  · rw [List.forall_mem_append, List.forall_mem_singleton]
    exact ⟨hlater, he⟩
  · rw [← List.cons_append, List.forall_mem_append, List.forall_mem_singleton]
    exact ⟨howner, hs⟩

namespace Records

open Ledger

variable {σ : Records} {tr : List (Envelope × Store)}

/-! ### Along a history -/

/-- **A pending offer is the last one that was made, less the names withdrawn since.** -/
theorem History.offered (h : History tr σ) {id : AssetId} {recipient : AccountId} {o : Offer}
    (ho : σ.offer? id recipient = some o) : ∃ given later,
      Offered (tr.map Prod.fst) id recipient o.issuer o.role given later ∧
      (o.role = .reporter → Lists o.names fun n => n ∈ given ∧ Stands later id recipient n) := by
  induction h generalizing o with
  | nil => exact nomatch ho
  | @snoc tr e σ σ' m h he hstep hm ih =>
    obtain ⟨sender, now, message⟩ := e
    have hchange := hstep.offers h.sound.wellFormed id recipient
    rw [ho] at hchange
    rw [List.map_append]
    generalize hx : some o = x at hchange
    cases hchange with
    | keep hoffers hanswers hwithdraws =>
      obtain ⟨given, later, hoffered, hnames⟩ := ih hx.symm
      refine ⟨given, _, hoffered.snoc hoffers hanswers, ?_⟩
      intro hrole
      refine (hnames hrole).congr fun n => and_congr_right ?_
      intro _
      rw [stands_snoc]
      exact (and_iff_left (hwithdraws n)).symm
    | @offer role given =>
      obtain rfl := Option.some.inj hx
      refine ⟨given, [], ⟨⟨_, now, rfl⟩, fun _ hd => absurd hd List.not_mem_nil⟩, ?_⟩
      rintro rfl
      refine lists_normalizeNames fun n => (and_iff_left ?_).symm
      intro _ hd
      exact absurd hd List.not_mem_nil
    | @narrow p withdrawn hp =>
      obtain rfl := Option.some.inj hx
      obtain ⟨given, later, hoffered, hnames⟩ := ih hp
      refine ⟨given, _, hoffered.snoc not_false not_false, ?_⟩
      intro hrole
      refine ((hnames hrole).filter _).congr ?_
      intro n
      rw [stands_snoc, and_assoc]
      simp [Message.Withdraws]
    | remove => exact nomatch hx

theorem belongs {m : Contents} (hm : σ.Pictured m) {id : AssetId} {roles : Roles}
    (h : (σ.asset? id).map Asset.roles = some roles) :
    Belongs (.ofContents m) id roles.owner := by
  obtain ⟨a, ha, rfl⟩ := Option.map_eq_some_iff.mp h
  refine ⟨a, ?_, rfl⟩
  rw [run_query, hm.mirrors.find?, ha]

/-- The reporters of an asset, in order of accounts, each traced back. -/
structure Justified (tr : List (Envelope × Store)) (id : AssetId) (roles : Roles) : Prop where
  ascending : AscendingBy Reporter.account roles.reporters
  traced : ∀ r ∈ roles.reporters, Traced tr roles.owner id r

theorem Justified.none (tr : List (Envelope × Store)) (id : AssetId) (owner : AccountId) :
    Justified tr id ⟨owner, []⟩ :=
  ⟨.nil, fun _ hr => absurd hr List.not_mem_nil⟩

/-- A reporter comes in by the envelope that is applied last. -/
theorem Justified.upsert {id : AssetId} {a : Asset} (h : Justified tr id a.roles) {r : Reporter}
    {e : Envelope} {s : Store} (hr : Granted (tr.map Prod.fst) a.owner id r e)
    (he : ∀ account, e.message.Decides id account → account = r.account)
    (hs : Belongs s id a.owner) :
    Justified (tr ++ [(e, s)]) id (a.upsertReporter r).roles := by
  refine ⟨h.ascending.upsertBy r, ?_⟩
  intro q hq
  rcases h.ascending.mem_upsertBy.mp hq with rfl | ⟨hq, hne⟩
  · exact .last hr hs
  · exact (h.traced q hq).snoc (fun hd => hne (he _ hd)) hs

/-- A reporter goes by the envelope that is applied last. -/
theorem Justified.remove {id : AssetId} {a : Asset} (h : Justified tr id a.roles)
    {account : AccountId} {e : Envelope} {s : Store}
    (he : ∀ other, e.message.Decides id other → other = account)
    (hs : Belongs s id a.owner) :
    Justified (tr ++ [(e, s)]) id (a.removeReporter account).roles := by
  refine ⟨List.Pairwise.sublist List.eraseP_sublist h.ascending, ?_⟩
  intro r hr
  have hne : r.account ≠ account := h.ascending.key_ne_of_mem_eraseP hr
  exact (h.traced r (List.mem_of_mem_eraseP hr)).snoc (fun hd => hne (he _ hd)) hs

/-- **The reporters of an asset were let in by its owner.** -/
theorem History.justified (h : History tr σ) {id : AssetId} {roles : Roles}
    (hroles : (σ.asset? id).map Asset.roles = some roles) : Justified tr id roles := by
  induction h generalizing roles with
  | nil => exact nomatch hroles
  | @snoc tr e σ σ' m h he hstep hm ih =>
    obtain ⟨sender, now, message⟩ := e
    have howner := belongs hm hroles
    have hchange : σ.RoleChange sender now id message _ := hstep.roles h.sound.wellFormed id
    rw [hroles] at hchange
    generalize hx : some roles = x at hchange
    cases hchange with
    | keep hissued hdecides =>
      obtain ⟨hasc, htraced⟩ := ih hx.symm
      exact ⟨hasc, fun r hr => (htraced r hr).snoc (hdecides _) howner⟩
    | make hfree hissued =>
      obtain rfl := Option.some.inj hx
      exact .none _ id _
    | takeOver ha ho hsame hrole =>
      obtain rfl := Option.some.inj hx
      exact .none _ id _
    | @join a o ha ho hsame hrole =>
      obtain rfl := Option.some.inj hx
      obtain ⟨given, later, hoffered, hnames⟩ := h.offered ho
      rw [hrole, ← hsame] at hoffered
      have hjustified := ih (congrArg (Option.map Asset.roles) ha)
      refine hjustified.upsert (.accepted hoffered ?_) (fun _ hd => hd.2.symm) howner
      exact lists_normalizeNames (hnames hrole).mem_iff
    | @appoint a reporter given ha hsame =>
      obtain rfl := Option.some.inj hx
      obtain rfl := hsame
      have hjustified := ih (congrArg (Option.map Asset.roles) ha)
      refine hjustified.upsert (.appointed ?_) (fun _ hd => hd.2.symm) howner
      exact lists_normalizeNames fun _ => Iff.rfl
    | @dismiss a reporter ha =>
      obtain rfl := Option.some.inj hx
      have hjustified := ih (congrArg (Option.map Asset.roles) ha)
      exact hjustified.remove (fun _ hd => hd.2.symm) howner

end Records

namespace Ledger

open Records

/-- **Every role in force was given by the owner.**  When an envelope changes the owner of an asset,
its sender, the new owner, accepts what the old owner had offered it last: the owner role.  The asset
then has no reporters.  And after any run, each reporter of each asset is traced back to an envelope
by which the present owner let it in. -/
theorem roles_from_owner (config : ModuleConfig) :
    (∀ es e id a b, (Registry.find? id).run (run config es .empty) = .ok (some a) →
      (Registry.find? id).run (run config (es ++ [e]) .empty) = .ok (some b) →
      a.owner ≠ b.owner →
      e.message = .answerOffer id b.owner .accept ∧ e.sender = b.owner ∧ b.reporters = [] ∧
        ∃ given later,
          Offered (accepted config es .empty) id b.owner a.owner .owner given later) ∧
    ∀ es, ∃ assets, Registered (run config es .empty) assets ∧
      ∀ a ∈ assets, ∀ r ∈ a.reporters, Traced (trace config es .empty) a.owner a.id r := by
  constructor
  · intro es e id a b ha hb hne
    obtain ⟨σ, m, hrun, hm, hhistory⟩ := run_history config es
    rw [hrun, run_query, hm.mirrors.find?] at ha
    rw [run_append, hrun] at hb
    rcases dispatch_cases config e hm with
      ⟨outcome, m', σ', hdispatch, hm', he, hstep⟩ | ⟨fault, hdispatch⟩
    · change (Registry.find? id).run (dispatch config e (.ofContents m)).2 = _ at hb
      rw [hdispatch, run_query, hm'.mirrors.find?] at hb
      obtain ⟨hmessage, hsender, hreporters, o, ho, hissuer, hrole⟩ :=
        hstep.owner_changed hm.sound.wellFormed (Except.ok.inj ha) (Except.ok.inj hb) hne
      obtain ⟨given, later, hoffered, -⟩ := hhistory.offered ho
      rw [hissuer, hrole] at hoffered
      exact ⟨hmessage, hsender, hreporters, given, later, hoffered⟩
    · change (Registry.find? id).run (dispatch config e (.ofContents m)).2 = _ at hb
      rw [hdispatch, run_query, hm.mirrors.find?, ha] at hb
      exact absurd (congrArg Asset.owner (Option.some.inj (Except.ok.inj hb))) hne
  · intro es
    obtain ⟨σ, m, hrun, hm, hhistory⟩ := run_history config es
    rw [hrun]
    refine ⟨σ.allAssets, registered hm, ?_⟩
    intro a ha
    have hstored : σ.asset? a.id = some a := (mem_allAssets hm.sound.wellFormed).mp ha
    exact (hhistory.justified (congrArg (Option.map Asset.roles) hstored)).traced

/-- An asset that is handed over, as it was offered. -/
theorem offered_when_handed_over : ∃ given later,
    Offered (accepted {} [⟨⟨"alice"⟩, 1, .createAsset ⟨"grain"⟩ "Grain" 5 "kg" none []⟩,
      ⟨⟨"alice"⟩, 2, .createOffer ⟨"grain"⟩ ⟨"bob"⟩ .owner []⟩] .empty)
      ⟨"grain"⟩ ⟨"bob"⟩ ⟨"alice"⟩ .owner given later := by
  have hbefore : (Registry.find? ⟨"grain"⟩).run
      (run {} [⟨⟨"alice"⟩, 1, .createAsset ⟨"grain"⟩ "Grain" 5 "kg" none []⟩,
        ⟨⟨"alice"⟩, 2, .createOffer ⟨"grain"⟩ ⟨"bob"⟩ .owner []⟩] .empty) =
      .ok (some (Asset.fresh ⟨"grain"⟩ "Grain" ⟨"alice"⟩ 5 "kg")) := by decide +kernel
  have hafter : (Registry.find? ⟨"grain"⟩).run
      (run {} ([⟨⟨"alice"⟩, 1, .createAsset ⟨"grain"⟩ "Grain" 5 "kg" none []⟩,
        ⟨⟨"alice"⟩, 2, .createOffer ⟨"grain"⟩ ⟨"bob"⟩ .owner []⟩] ++
        [⟨⟨"bob"⟩, 3, .answerOffer ⟨"grain"⟩ ⟨"bob"⟩ .accept⟩]) .empty) =
      .ok (some { Asset.fresh ⟨"grain"⟩ "Grain" ⟨"alice"⟩ 5 "kg" with owner := ⟨"bob"⟩ }) := by
    decide +kernel
  obtain ⟨hchange, -⟩ := roles_from_owner {}
  obtain ⟨-, -, -, hoffered⟩ := hchange _ _ _ _ _ hbefore hafter (by decide)
  exact hoffered

end Ledger

end Custody
