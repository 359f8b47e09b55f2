import Custody.Proofs.Records.Consumption
import Custody.Proofs.Records.Writing

/-!
# Transactions follow changes

A transaction **follows** a change of the records if, on every map that pictures the records, it
gives the same answer and leaves a map that pictures the changed records, or is refused for the
same reason before it has written anything.  So whatever holds of the changes holds of the ledger.

* `Txn.Follows.read`, `Txn.Follows.done`: how a transaction is followed step by step.
* `Txn.Follows.run_of_ok`, `Txn.Follows.ok_of_run`: when it is done, and what it leaves.
* `Ledger.execute_follows`: every message follows its change.
-/

namespace Custody

/-- On every map that pictures the records, the transaction does what the change does. -/
def Txn.Follows {α : Type} (t : Txn α) (σ : Records) (f : Verdict (α × Records)) : Prop :=
  ∀ m, σ.Pictured m →
    match f with
    | .error e => t.exec m = (.error e, m)
    | .ok (a, σ') => σ'.Sound → ∃ m', t.exec m = (.ok a, m') ∧ σ'.Pictured m'

namespace Txn.Follows

variable {α β γ : Type} {σ σ' : Records}

/-- A transaction that reads first follows a change that finds the same thing. -/
theorem read {t : Txn γ} {k : γ → Txn α} {r : Verdict γ} {f : γ → Verdict (α × Records)}
    (ht : ∀ m, σ.Pictured m → t.exec m = (r, m))
    (hk : ∀ c, r = .ok c → (k c).Follows σ (f c)) : (t >>= k).Follows σ (r >>= f) := by
  intro m hm
  cases r with
  | error e => exact exec_bind_of_error (ht m hm) k
  | ok c =>
    change match f c with
      | .error e => (t >>= k).exec m = (.error e, m)
      | .ok (a, σ') => σ'.Sound → ∃ m', (t >>= k).exec m = (.ok a, m') ∧ σ'.Pictured m'
    rw [exec_bind_of_ok (ht m hm)]
    exact hk c rfl m hm

theorem query {q : Query γ} {k : γ → Txn α} {r : Verdict γ} {f : γ → Verdict (α × Records)}
    (hq : ∀ m, σ.Pictured m → q m.view = r)
    (hk : ∀ c, r = .ok c → (k c).Follows σ (f c)) : (liftM q >>= k).Follows σ (r >>= f) :=
  read (fun m hm => by rw [exec_query, hq m hm]) hk

theorem known {t : Txn γ} {k : γ → Txn α} {c : γ} {f : Verdict (α × Records)}
    (ht : ∀ m, σ.Pictured m → t.exec m = (.ok c, m)) (hk : (k c).Follows σ f) :
    (t >>= k).Follows σ f := by
  intro m hm
  rw [exec_bind_of_ok (ht m hm)]
  exact hk m hm

theorem verdict {r : Verdict γ} {k : γ → Txn α} {f : γ → Verdict (α × Records)}
    (hk : ∀ c, r = .ok c → (k c).Follows σ (f c)) : (liftM r >>= k).Follows σ (r >>= f) :=
  read (fun m _ => exec_verdict r m) hk

theorem verdicts {l : List γ} {r : γ → Verdict Unit} {k : Unit → Txn α}
    {f : Unit → Verdict (α × Records)} (hk : l.forM r = .ok () → (k ()).Follows σ (f ())) :
    ((l.forM fun c => (liftM (r c) : Txn Unit)) >>= k).Follows σ (l.forM r >>= f) :=
  read (fun m _ => exec_forM_verdict l r m) fun _ h => hk h

theorem refuse (e : Fault) : (Txn.refuse e : Txn α).Follows σ (.error e) := fun _ _ => rfl

theorem done {t : Txn α} {a : α} (ht : ∀ m, σ.Pictured m → σ'.Sound →
    ∃ m', t.exec m = (.ok a, m') ∧ σ'.Pictured m') : t.Follows σ (.ok (a, σ')) := ht

/-- A transaction that answers something else in the end. -/
theorem map {t : Txn α} {f : Verdict (α × Records)} (h : t.Follows σ f) (g : α → β) :
    (t >>= fun a => pure (g a)).Follows σ (f >>= fun p => pure (g p.1, p.2)) := by
  intro m hm
  cases f with
  | error e => exact exec_bind_of_error (h m hm) _
  | ok p =>
    intro hsound
    obtain ⟨m', hexec, hm'⟩ := h m hm hsound
    exact ⟨m', exec_bind_of_ok hexec _, hm'⟩

/-- On a store a transaction is done if the change that it follows is, and it leaves a picture of
the changed records. -/
theorem run_of_ok {t : Txn α} {f : Verdict (α × Records)} (h : t.Follows σ f) {m : Contents}
    (hm : σ.Pictured m) {a : α} (hf : f = .ok (a, σ')) (hσ : σ'.Sound) :
    ∃ m', t.run (.ofContents m) = (.ok a, .ofContents m') ∧ σ'.Pictured m' := by
  subst hf
  obtain ⟨m', hexec, hm'⟩ := h m hm hσ
  exact ⟨m', by rw [run_ofContents, hexec], hm'⟩

/-- It is done only if that change is. -/
theorem ok_of_run {t : Txn α} {f : Verdict (α × Records)} (h : t.Follows σ f)
    (hsound : ∀ {a σ'}, f = .ok (a, σ') → σ'.Sound) {m : Contents} (hm : σ.Pictured m) {a : α}
    {s' : Store} (hrun : t.run (.ofContents m) = (.ok a, s')) :
    ∃ σ' m', f = .ok (a, σ') ∧ s' = .ofContents m' ∧ σ'.Pictured m' := by
  cases hf : f with
  | error e =>
    subst hf
    have hexec : t.exec m = (.error e, m) := h m hm
    rw [run_ofContents, hexec] at hrun
    exact nomatch hrun
  | ok p =>
    obtain ⟨m', hrun', hm'⟩ := h.run_of_ok hm hf (hsound hf)
    obtain ⟨ha, rfl⟩ := Prod.mk.inj (hrun.symm.trans hrun')
    obtain rfl := Except.ok.inj ha
    exact ⟨p.2, m', rfl, rfl, hm'⟩

end Txn.Follows

namespace Ledger

open Txn Records

variable {σ : Records}

/-! ### Assets -/

theorem exec_issue {m : Contents} (hm : σ.Pictured m) {a : Asset} (hfree : σ.asset? a.id = none)
    (hσ : (σ.put a).Sound) :
    ∃ m', (Registry.create a >>= fun _ => Inventory.credit a.owner a.root a.quantity >>= fun _ =>
        pure a : Txn Asset).exec m = (.ok a, m') ∧ (σ.put a).Pictured m' := by
  have ha : (σ.put a).asset? a.id = some a := by simp [asset?_put]
  have hstorable := hσ.wellFormed.storable ha
  obtain ⟨m₁, hexec₁, h₁⟩ := hm.mirrors.create hstorable hfree
  obtain ⟨m₂, β, hexec₂, h₂, hβ⟩ := h₁.credit hstorable.owner (hσ.root ha) a.quantity
  refine ⟨m₂, ?_, h₂.pictured hσ ?_⟩
  · rw [exec_bind_of_ok hexec₁, exec_bind_of_ok hexec₂]
    rfl
  · intro o r
    rw [hβ, σ.balance_put_of_none hfree]

/-- A quantity that is split off counts for the child as it did for the parent. -/
theorem exec_split {m : Contents} (hm : σ.Pictured m) {p a : Asset}
    (hp : σ.asset? p.id = some p) (hfree : σ.asset? a.id = none) (howner : a.owner = p.owner)
    (hroot : a.root = p.root) (hle : a.quantity ≤ p.quantity)
    (hσ : ((σ.put { p with quantity := p.quantity - a.quantity }).put a).Sound) :
    ∃ m', (Registry.put { p with quantity := p.quantity - a.quantity } >>= fun _ =>
        Registry.create a >>= fun _ => pure a : Txn Asset).exec m = (.ok a, m') ∧
      ((σ.put { p with quantity := p.quantity - a.quantity }).put a).Pictured m' := by
  have hne : a.id ≠ p.id := fun heq => by
    simp [heq, hp] at hfree
  have hstorable := hm.sound.wellFormed.storable hp
  obtain ⟨m₁, hexec₁, h₁⟩ :=
    hm.mirrors.put (a := { p with quantity := p.quantity - a.quantity })
      ⟨hstorable.id, hstorable.owner, hstorable.names, hstorable.reporters, hstorable.ascending⟩
  have hfree' : (σ.put { p with quantity := p.quantity - a.quantity }).asset? a.id = none := by
    rw [asset?_put, if_neg hne, hfree]
  obtain ⟨m₂, hexec₂, h₂⟩ :=
    h₁.create (hσ.wellFormed.storable (asset?_put_self _ _)) hfree'
  refine ⟨m₂, ?_, h₂.pictured hσ ?_⟩
  · rw [exec_bind_of_ok hexec₁, exec_bind_of_ok hexec₂]
    rfl
  · intro o r
    have hput := σ.balance_put_quantity hp (p.quantity - a.quantity) o r
    have hcreate := balance_put_of_none _ hfree' o r
    have hsplit := Balances.single_sub_add p.owner p.root hle o r
    rw [howner, hroot] at hcreate
    omega

theorem createAsset_follows (id : AssetId) (name : String) (quantity : Nat) (unit : String)
    (parent : Option AssetId) (properties : List Property) (sender : AccountId) :
    (createAsset id name quantity unit parent properties sender).Follows σ
      (σ.createAsset id name quantity unit parent properties sender) := by
  refine .known (c := (σ.asset? id).isSome) (fun m hm => ?_) ?_
  · rw [exec_query, hm.mirrors.contains]
  by_cases htaken : (σ.asset? id).isSome = true
  · rw [Records.createAsset, if_pos htaken, if_pos htaken]
    exact .refuse _
  · have hfree : σ.asset? id = none := by simpa using htaken
    rw [Records.createAsset, if_neg htaken, if_neg htaken]
    refine .verdicts ?_
    intro _
    cases parent with
    | none => exact .done fun m hm hσ => exec_issue hm hfree hσ
    | some parentId =>
      refine .query (fun m hm => hm.mirrors.get parentId) fun p hp => .verdict fun _ _ =>
        .verdict fun _ howner => .verdict fun _ hle => .done fun m hm hσ => ?_
      have hsender : p.owner = sender := Asset.isOwnedBy_iff.mp (require_eq_ok.mp howner)
      have hle : quantity ≤ p.quantity := of_decide_eq_true (require_eq_ok.mp hle)
      let child := { Asset.fresh id name sender quantity unit with
        properties := Property.normalize properties
        parent := some parentId
        root := p.root }
      exact exec_split (p := p) (a := child) hm (hm.asset?_id hp) hfree hsender.symm rfl hle hσ

theorem finalize_follows (id : AssetId) (sender : AccountId) :
    (finalize id sender).Follows σ (σ.finalize id sender) := by
  refine .query (fun m hm => hm.mirrors.get id) fun a ha => .verdict fun _ _ => .verdict fun _ _ =>
    .done fun m hm hσ => ?_
  obtain ⟨m₁, hexec₁, h₁⟩ := hm.put (a := { a with isFinal := true }) (p := a)
    (hm.sound.put_of hσ (asset?_put_self _ _)) (hm.asset?_id ha) rfl rfl rfl
  obtain ⟨m₂, n, hexec₂, h₂⟩ := h₁.dropAll id
  refine ⟨m₂, ?_, h₂⟩
  rw [exec_bind_of_ok hexec₁, exec_bind_of_ok hexec₂]
  rfl

theorem updateProperties_follows (id : AssetId) (batch : List Property) (caller : AccountId) :
    (updateProperties id batch caller).Follows σ (σ.updateProperties id batch caller) := by
  refine .query (fun m hm => hm.mirrors.get id) fun a ha => .verdict fun _ _ => .verdict fun _ _ =>
    .verdicts fun _ => .verdicts fun _ => .done fun m hm hσ => ?_
  obtain ⟨m', hexec, hm'⟩ := hm.put (p := a) hσ (hm.asset?_id ha) rfl rfl rfl
  exact ⟨m', exec_bind_of_ok hexec _, hm'⟩

/-! ### Quantities -/

theorem forChange_view {m : Contents} (hm : σ.Pictured m) (id : AssetId) (amount : Nat)
    (caller : AccountId) (action : Action) :
    forChange id amount caller action m.view = σ.forChange id amount caller action := by
  rw [forChange, Query.bind_view, hm.mirrors.get]
  rfl

theorem addQuantity_follows (id : AssetId) (amount : Nat) (caller : AccountId) :
    (addQuantity id amount caller).Follows σ (σ.addQuantity id amount caller) := by
  refine .query (fun m hm => forChange_view hm id amount caller .addQuantity) fun a ha =>
    .done fun m hm hσ => ?_
  have hp := hm.sound.wellFormed.asset?_id (forChange_eq_ok.mp ha).1
  have hstorable := hm.sound.wellFormed.storable hp
  obtain ⟨m₁, β, hexec₁, h₁, hβ⟩ :=
    hm.mirrors.credit hstorable.owner (hm.sound.root hp) amount
  obtain ⟨m₂, hexec₂, h₂⟩ := h₁.put (a := { a with quantity := a.quantity + amount })
    (hσ.wellFormed.storable (asset?_put_self _ _))
  refine ⟨m₂, ?_, h₂.pictured hσ ?_⟩
  · rw [exec_bind_of_ok hexec₁, exec_bind_of_ok hexec₂]
    rfl
  · intro o r
    have hput := σ.balance_put_quantity hp (a.quantity + amount) o r
    have hadd := Balances.single_add a.owner a.root a.quantity amount o r
    rw [hβ]
    omega

/-- What is taken from an asset is taken from the balance of its owner. -/
theorem exec_consume {m : Contents} (hm : σ.Pictured m) {t : Asset × Nat}
    (ht : σ.asset? t.1.id = some t.1) (hle : t.2 ≤ t.1.quantity) :
    ∃ m', (consume t.1.owner t.1 t.2).exec m = (.ok (), m') ∧ (σ.consume t).Pictured m' := by
  have hstorable := hm.sound.wellFormed.storable ht
  have hroot := hm.sound.root ht
  have hleft : (leftOf t).Storable :=
    ⟨hstorable.id, hstorable.owner, hstorable.names, hstorable.reporters, hstorable.ascending⟩
  obtain ⟨m₁, β, hexec₁, h₁, hβ⟩ := hm.mirrors.debit hstorable.owner hroot
    (Nat.le_trans hle (quantity_le_balance ht))
  obtain ⟨m₂, hexec₂, h₂⟩ := h₁.put hleft
  refine ⟨m₂, ?_, h₂.pictured (hm.sound.put hleft hroot) ?_⟩
  · rw [consume, exec_bind_of_ok hexec₁]
    exact hexec₂
  · intro o r
    have hput := σ.balance_put_quantity ht (t.1.quantity - t.2) o r
    have hsub := Balances.single_sub_add t.1.owner t.1.root hle o r
    have hdebit := hβ o r
    change (σ.consume t).balance o r + _ = _ at hput
    change β o r = (σ.consume t).balance o r
    omega

theorem subtractQuantity_follows (id : AssetId) (amount : Nat) (caller : AccountId) :
    (subtractQuantity id amount caller).Follows σ (σ.subtractQuantity id amount caller) := by
  refine .query (fun m hm => forChange_view hm id amount caller .subtractQuantity) fun a ha =>
    .verdict fun _ hle => .done fun m hm _ => ?_
  have hle : amount ≤ a.quantity := of_decide_eq_true (require_eq_ok.mp hle)
  obtain ⟨m', hexec, hm'⟩ :=
    exec_consume (t := (a, amount)) hm
      (hm.sound.wellFormed.asset?_id (forChange_eq_ok.mp ha).1) hle
  have hassoc : (consume a.owner a amount >>= fun _ => pure (leftOf (a, amount))) =
      Inventory.debit a.owner a.root amount >>= fun _ =>
        Registry.put (leftOf (a, amount)) >>= fun _ => pure (leftOf (a, amount)) :=
    bind_assoc _ _ _
  exact ⟨m', (congrArg (Txn.exec · m) hassoc.symm).trans (exec_bind_of_ok hexec _), hm'⟩

/-! ### Materials -/

theorem component_view {m : Contents} (hm : σ.Pictured m) (consumer : AssetId)
    (caller : AccountId) (x : Material) :
    component consumer caller x m.view = σ.component consumer caller x := by
  rw [component, Records.component, Query.bind_view, Query.verdict_view]
  refine congrArg _ (funext ?_)
  intro _
  rw [Query.bind_view, hm.mirrors.find?]
  cases σ.asset? x.component <;> rfl

/-- The balances cover what a batch takes, for all components of a root together. -/
theorem exec_checkRoots {m : Contents} (hm : σ.Pictured m) {consumer : AssetId}
    {caller : AccountId} {demand : List Material} {taken : List (Asset × Nat)}
    (h : σ.Takes consumer caller demand taken) :
    ((rootTotals taken).bindings.forM fun b =>
      (liftM (checkRoot caller b.1 b.2) : Txn Unit)).exec m = (.ok (), m) := by
  refine exec_forM_of_same ?_
  intro b hb
  have hneeded : b.2 =
      (taken.map fun t => Balances.single t.1.owner t.1.root t.2 caller b.1).sum := by
    have hget : (rootTotals taken).getD b.1 0 = b.2 := by
      rw [SortedMap.getD, (SortedMap.mem_bindings _ _ _).mp hb]
      rfl
    rw [rootTotals, SortedMap.getD_foldl_update, SortedMap.getD, SortedMap.get?_empty,
      Option.getD_none, Nat.zero_add] at hget
    rw [← hget]
    refine congrArg List.sum (List.map_congr_left ?_)
    intro t ht
    simp [Balances.single, (h.takable t ht).owner]
  have hle : b.2 ≤ σ.balance caller b.1 := by
    have := balance_foldl_consume h.consumable caller b.1
    omega
  rw [exec_query, checkRoot, Query.bind_view, hm.mirrors.balance]
  exact congrArg (·, m) (require_eq_ok.mpr (decide_eq_true hle))

theorem exec_consumeAll {caller : AccountId} {taken : List (Asset × Nat)} {m : Contents}
    (hm : σ.Pictured m) (h : σ.Consumable taken) (howner : ∀ t ∈ taken, t.1.owner = caller) :
    ∃ m', (taken.forM fun t => consume caller t.1 t.2).exec m = (.ok (), m') ∧
      (taken.foldl Records.consume σ).Pictured m' := by
  induction taken generalizing σ m with
  | nil => exact ⟨m, rfl, hm⟩
  | cons t rest ih =>
    obtain ⟨m₁, hexec₁, h₁⟩ := exec_consume hm (h.stored t List.mem_cons_self)
      (h.covered t List.mem_cons_self)
    rw [howner t List.mem_cons_self] at hexec₁
    obtain ⟨m₂, hexec₂, h₂⟩ := ih h₁ h.tail fun u hu => howner u (List.mem_cons_of_mem _ hu)
    exact ⟨m₂, (exec_bind_of_ok hexec₁ _).trans hexec₂, h₂⟩

theorem addMaterials_follows (id : AssetId) (materials : List Material) (caller : AccountId) :
    (addMaterials id materials caller).Follows σ (σ.addMaterials id materials caller) := by
  refine .query (fun m hm => hm.mirrors.get id) fun target htarget => .verdict fun _ _ =>
    .verdict fun _ _ => .verdict fun _ _ => .verdict fun _ _ =>
    .query (fun m hm => ?_) fun components hcomponents => .done fun m hm hσ => ?_
  · rw [Query.mapM_view]
    exact congrArg (List.mapM · _) (funext fun x => component_view hm id caller x)
  have htakes := takes_of_mapM hm.sound.wellFormed (Material.normalize_ascending materials)
    hcomponents
  have hid := hm.sound.wellFormed.id_eq (get_eq_ok.mp htarget)
  have hkept := htakes.asset?_consumer.trans (get_eq_ok.mp htarget)
  rw [← hm.sound.wellFormed.id_eq (get_eq_ok.mp htarget)] at hkept
  obtain ⟨m₁, hexec₁, h₁⟩ := exec_consumeAll hm htakes.consumable fun t ht =>
    (htakes.takable t ht).owner
  obtain ⟨m₂, hexec₂, h₂⟩ := h₁.put (p := target) hσ hkept rfl rfl rfl
  refine ⟨m₂, ?_, h₂⟩
  rw [exec_bind_of_ok (exec_checkRoots hm htakes), exec_bind_of_ok hexec₁]
  exact exec_bind_of_ok hexec₂ _

/-! ### Offers -/

theorem createOffer_follows (id : AssetId) (recipient : AccountId) (role : OfferRole)
    (names : List PropertyName) (issuer : AccountId) :
    (createOffer id recipient role names issuer).Follows σ
      (σ.createOffer id recipient role names issuer) := by
  refine .query (fun m hm => hm.mirrors.get id) fun a ha => .verdict fun _ _ => .verdict fun _ _ =>
    .verdict fun _ _ => .verdict fun _ _ =>
    .known (c := σ.offer? id recipient) (fun m hm => ?_) (.done fun m hm hσ => ?_)
  · rw [exec_query, hm.mirrors.offer?]
  · obtain ⟨m', hexec, hm'⟩ := hm.hold hσ
    exact ⟨m', exec_bind_of_ok hexec _, hm'⟩

/-- An asset that is handed over is counted for its new owner. -/
theorem exec_transfer {m : Contents} (hm : σ.Pictured m) {a : Asset}
    (ha : σ.asset? a.id = some a) {taker : AccountId}
    (hσ : (σ.put { a with owner := taker, reporters := [] }).Sound) :
    ∃ m', (transfer a taker).exec m = (.ok { a with owner := taker, reporters := [] }, m') ∧
      (σ.put { a with owner := taker, reporters := [] }).Pictured m' := by
  have hhanded : (σ.put { a with owner := taker, reporters := [] }).asset? a.id =
      some { a with owner := taker, reporters := [] } := by simp [asset?_put]
  have hstorable := hσ.wellFormed.storable hhanded
  have htaker : taker.Clean := hstorable.owner
  obtain ⟨m₁, β, hexec₁, h₁, hβ⟩ := hm.mirrors.move (hm.sound.wellFormed.storable ha).owner
    htaker (hm.sound.root ha) (quantity_le_balance ha)
  obtain ⟨m₂, hexec₂, h₂⟩ := h₁.put hstorable
  refine ⟨m₂, ?_, h₂.pictured hσ ?_⟩
  · rw [transfer, exec_bind_of_ok hexec₁]
    exact exec_bind_of_ok hexec₂ _
  · intro o r
    have hput := σ.balance_put_of_some (a := { a with owner := taker, reporters := [] }) ha o r
    have hmove := hβ o r
    change _ = σ.balance o r + Balances.single taker a.root a.quantity o r at hput
    omega

theorem exec_grant {m : Contents} (hm : σ.Pictured m) {a : Asset} (ha : σ.asset? a.id = some a)
    (recipient : AccountId) (o : Offer) (now : UInt64)
    (hσ : (σ.put (granted a recipient o now)).Sound) :
    ∃ m', (match o.role with
        | .owner => transfer a recipient
        | .reporter => do
          Registry.put (a.upsertReporter (Reporter.grant recipient o.names now))
          return a.upsertReporter (Reporter.grant recipient o.names now)).exec m =
        (.ok (granted a recipient o now), m') ∧
      (σ.put (granted a recipient o now)).Pictured m' := by
  rw [granted] at hσ ⊢
  cases hrole : o.role with
  | owner =>
    rw [hrole] at hσ
    exact exec_transfer hm ha hσ
  | reporter =>
    rw [hrole] at hσ
    obtain ⟨m', hexec, hm'⟩ := hm.put (p := a) hσ ha rfl rfl rfl
    exact ⟨m', exec_bind_of_ok hexec _, hm'⟩

theorem answerOffer_follows (id : AssetId) (recipient : AccountId) (response : Response)
    (respondent : AccountId) (now : UInt64) :
    (answerOffer id recipient response respondent now).Follows σ
      (σ.answerOffer id recipient response respondent now) := by
  refine .query (fun m hm => hm.mirrors.get id) fun a ha => .verdict fun _ _ =>
    .query (fun m hm => hm.mirrors.getOffer id recipient) fun o ho => .verdict fun _ _ => ?_
  by_cases haccept : response = .accept
  · rw [if_pos haccept, if_pos haccept, accept, Records.accept, bind_assoc, bind_assoc]
    refine .verdict fun _ _ => .done ?_
    intro m hm hσ
    obtain ⟨m₁, hexec₁, h₁⟩ := exec_grant hm (hm.asset?_id ha) recipient o now
      (hm.sound.put_of hσ (asset?_put_self _ _))
    obtain ⟨m₂, hexec₂, h₂⟩ := h₁.drop (getOffer_eq_ok.mp ho)
    exact ⟨m₂, (exec_bind_of_ok hexec₁ _).trans (exec_bind_of_ok hexec₂ _), h₂⟩
  · rw [if_neg haccept, if_neg haccept]
    refine .done ?_
    intro m hm _
    obtain ⟨m', hexec, hm'⟩ := hm.drop (getOffer_eq_ok.mp ho)
    exact ⟨m', exec_bind_of_ok hexec _, hm'⟩

theorem revokeOffer_follows (id : AssetId) (recipient : AccountId) (names : List PropertyName)
    (issuer : AccountId) :
    (revokeOffer id recipient names issuer).Follows σ
      (σ.revokeOffer id recipient names issuer) := by
  refine .query (fun m hm => hm.mirrors.get id) fun a ha => .verdict fun _ _ => .verdict fun _ _ =>
    .query (fun m hm => hm.mirrors.getOffer id recipient) fun o ho => .verdict fun _ _ =>
    .verdict fun _ _ => ?_
  by_cases hleft : (o.names.filter fun n => !names.contains n).isEmpty = true
  · rw [if_pos hleft, if_pos hleft]
    refine .done ?_
    intro m hm _
    obtain ⟨m', hexec, hm'⟩ := hm.drop (getOffer_eq_ok.mp ho)
    exact ⟨m', exec_bind_of_ok hexec _, hm'⟩
  · rw [if_neg hleft, if_neg hleft]
    refine .done ?_
    intro m hm hσ
    obtain ⟨m', hexec, hm'⟩ := hm.hold hσ
    exact ⟨m', exec_bind_of_ok hexec _, hm'⟩

/-! ### Reporters -/

theorem createReporter_follows (id : AssetId) (reporter : AccountId) (names : List PropertyName)
    (caller : AccountId) (now : UInt64) :
    (createReporter id reporter names caller now).Follows σ
      (σ.createReporter id reporter names caller now) := by
  refine .query (fun m hm => hm.mirrors.get id) fun a ha => .verdict fun _ _ => .verdict fun _ _ =>
    .verdict fun _ _ => .verdict fun _ _ => .done fun m hm hσ => ?_
  obtain ⟨m', hexec, hm'⟩ := hm.put (p := a) hσ (hm.asset?_id ha) rfl rfl rfl
  exact ⟨m', exec_bind_of_ok hexec _, hm'⟩

theorem revokeReporter_follows (id : AssetId) (reporter : AccountId) (caller : AccountId) :
    (revokeReporter id reporter caller).Follows σ (σ.revokeReporter id reporter caller) := by
  refine .query (fun m hm => hm.mirrors.get id) fun a ha => .verdict fun _ _ => .verdict fun _ _ =>
    .verdict fun _ _ => .done fun m hm hσ => ?_
  obtain ⟨m', hexec, hm'⟩ := hm.put (p := a) hσ (hm.asset?_id ha) rfl rfl rfl
  exact ⟨m', exec_bind_of_ok hexec _, hm'⟩

/-! ### Messages -/

/-- **Every message follows its change.** -/
theorem execute_follows (e : Envelope) : (execute e).Follows σ (σ.execute e) := by
  rw [execute, Records.execute]
  cases e.message with
  | createAsset id name quantity unit parent properties =>
    exact (createAsset_follows id name quantity unit parent properties e.sender).map _
  | addQuantity id amount => exact (addQuantity_follows id amount e.sender).map _
  | subtractQuantity id amount => exact (subtractQuantity_follows id amount e.sender).map _
  | addMaterials id materials => exact (addMaterials_follows id materials e.sender).map _
  | updateProperties id batch => exact (updateProperties_follows id batch e.sender).map _
  | finalize id => exact (finalize_follows id e.sender).map _
  | createOffer id recipient role names =>
    exact (createOffer_follows id recipient role names e.sender).map _
  | answerOffer id recipient response =>
    exact (answerOffer_follows id recipient response e.sender e.blockTime).map _
  | revokeOffer id recipient names =>
    exact (revokeOffer_follows id recipient names e.sender).map _
  | createReporter id reporter names =>
    exact (createReporter_follows id reporter names e.sender e.blockTime).map _
  | revokeReporter id reporter => exact (revokeReporter_follows id reporter e.sender).map _

end Ledger

end Custody
