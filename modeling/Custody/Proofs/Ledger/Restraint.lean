import Custody.Proofs.Ledger.Run
import Custody.Proofs.Records.Legible

/-!
# Checks come before writes

The operations of the ledger are all or nothing by themselves, without a layer that takes back what
a refused one wrote: they check first and write then, and no writing fails.  Most of this holds on
any legible contents and for any identifiers, clean or not.  Two operations need more: a split must
find the identifier of the child still free after the parent was written, and a batch of materials
must not run out of balance half way; there the contents have to picture records.

* `Txn.Steady`, `Txn.Guarded`: a transaction that is never refused, and one that is refused only
  before it writes, on legible contents.
* `Txn.Careful`: a transaction that leaves given contents as they are if it is refused.
* `Ledger.operations_all_or_nothing`: **after any run, every operation is all or nothing.**
-/

namespace Custody

namespace Txn

variable {α β γ : Type}

/-- On legible contents the transaction is never refused, and it leaves them legible. -/
def Steady (t : Txn α) : Prop := ∀ m : Contents, m.Legible →
  ∃ a m', t.exec m = (.ok a, m') ∧ m'.Legible

/-- On legible contents the transaction is done, and leaves them legible, or is refused, and leaves
them as they are. -/
def Guarded (t : Txn α) : Prop := ∀ m : Contents, m.Legible →
  (∃ e, t.exec m = (.error e, m)) ∨ ∃ a m', t.exec m = (.ok a, m') ∧ m'.Legible

/-- If the transaction is refused, it leaves the contents as they are. -/
def Careful (t : Txn α) (m : Contents) : Prop := ∀ e m', t.exec m = (.error e, m') → m' = m

/-! ### Transactions that are never refused -/

namespace Steady

theorem pure (a : α) : (Pure.pure a : Txn α).Steady := fun m hm => ⟨a, m, rfl, hm⟩

theorem bind {t : Txn α} {f : α → Txn β} (ht : t.Steady) (hf : ∀ a, (f a).Steady) :
    (t >>= f).Steady := by
  intro m hm
  obtain ⟨a, m₁, hexec₁, hm₁⟩ := ht m hm
  obtain ⟨b, m₂, hexec₂, hm₂⟩ := hf a m₁ hm₁
  exact ⟨b, m₂, (exec_bind_of_ok hexec₁ f).trans hexec₂, hm₂⟩

theorem query {q : Query γ} {f : γ → Txn α}
    (hq : ∀ m : Contents, m.Legible → ∃ c, q m.view = .ok c) (hf : ∀ c, (f c).Steady) :
    (liftM q >>= f).Steady := by
  intro m hm
  obtain ⟨c, hc⟩ := hq m hm
  have hexec : (liftM q : Txn γ).exec m = (.ok c, m) := by rw [exec_query, hc]
  rw [exec_bind_of_ok hexec]
  exact hf c m hm

theorem forM {l : List γ} {f : γ → Txn Unit} (hf : ∀ c, (f c).Steady) : (l.forM f).Steady := by
  induction l with
  | nil => exact pure ()
  | cons c rest ih => exact bind (hf c) fun _ => ih

theorem delete (k : Bytes) : (Txn.delete k).Steady := fun _ hm => ⟨(), _, rfl, hm.erase k⟩

theorem set (ns : Namespace) {k v : Bytes} (hk : ns.stem <+: k) (hv : ns.Admits v) :
    (Txn.set k v).Steady := fun _ hm => ⟨(), _, rfl, hm.put hk hv⟩

end Steady

/-! ### Transactions that are refused only before they write -/

namespace Guarded

theorem steady {t : Txn α} (ht : t.Steady) : t.Guarded := fun m hm => Or.inr (ht m hm)

theorem refuse (e : Fault) : (Txn.refuse e : Txn α).Guarded := fun _ _ => Or.inl ⟨e, rfl⟩

theorem query {q : Query γ} {f : γ → Txn α} (hf : ∀ c, (f c).Guarded) :
    (liftM q >>= f).Guarded := by
  intro m hm
  cases hq : q m.view with
  | error e =>
    have hexec : (liftM q : Txn γ).exec m = (.error e, m) := by rw [exec_query, hq]
    exact Or.inl ⟨e, exec_bind_of_error hexec f⟩
  | ok c =>
    have hexec : (liftM q : Txn γ).exec m = (.ok c, m) := by rw [exec_query, hq]
    rw [exec_bind_of_ok hexec]
    exact hf c m hm

theorem verdict {r : Verdict γ} {f : γ → Txn α} (hf : ∀ c, (f c).Guarded) :
    (liftM r >>= f).Guarded := by
  intro m hm
  cases r with
  | error e => exact Or.inl ⟨e, exec_bind_of_error (exec_verdict _ m) f⟩
  | ok c =>
    rw [exec_bind_of_ok (exec_verdict (.ok c) m)]
    exact hf c m hm

theorem verdicts {l : List γ} {r : γ → Verdict Unit} {f : Unit → Txn α} (hf : (f ()).Guarded) :
    ((l.forM fun c => (liftM (r c) : Txn Unit)) >>= f).Guarded := by
  intro m hm
  have hexec := exec_forM_verdict l r m
  cases hl : l.forM r with
  | error e =>
    rw [hl] at hexec
    exact Or.inl ⟨e, exec_bind_of_error hexec f⟩
  | ok u =>
    rw [hl] at hexec
    rw [exec_bind_of_ok hexec]
    exact hf m hm

/-- Once a guarded transaction has written, the rest must not be refused. -/
theorem bind {t : Txn α} {f : α → Txn β} (ht : t.Guarded) (hf : ∀ a, (f a).Steady) :
    (t >>= f).Guarded := by
  intro m hm
  rcases ht m hm with ⟨e, hexec⟩ | ⟨a, m', hexec, hm'⟩
  · exact Or.inl ⟨e, exec_bind_of_error hexec f⟩
  · rw [exec_bind_of_ok hexec]
    obtain ⟨b, m'', hexec', hm''⟩ := hf a m' hm'
    exact Or.inr ⟨b, m'', hexec', hm''⟩

theorem careful {t : Txn α} (ht : t.Guarded) {m : Contents} (hm : m.Legible) : t.Careful m := by
  intro e m' hexec
  rcases ht m hm with ⟨e', hexec'⟩ | ⟨a, m'', hexec', -⟩
  · rw [hexec'] at hexec
    exact (Prod.mk.inj hexec).2.symm
  · rw [hexec'] at hexec
    exact nomatch hexec

end Guarded

theorem Careful.of_done {t : Txn α} {m m' : Contents} {a : α} (h : t.exec m = (.ok a, m')) :
    t.Careful m := by
  intro e m'' hexec
  rw [h] at hexec
  exact nomatch hexec

/-- What reads first is careful if the rest is, on the contents as they are read. -/
theorem Careful.read {t : Txn γ} {f : γ → Txn α} {r : Verdict γ} {m : Contents}
    (ht : t.exec m = (r, m)) (hf : ∀ c, r = .ok c → (f c).Careful m) : (t >>= f).Careful m := by
  cases r with
  | error e =>
    intro e' m' hexec
    rw [exec_bind_of_error ht] at hexec
    exact (Prod.mk.inj hexec).2.symm
  | ok c =>
    intro e' m' hexec
    rw [exec_bind_of_ok ht] at hexec
    exact hf c rfl e' m' hexec

/-- A transaction that follows a change is careful if the change leaves sound records. -/
theorem Follows.careful {t : Txn α} {σ : Records} {f : Verdict (α × Records)} (h : t.Follows σ f)
    (hf : ∀ a σ', f = .ok (a, σ') → σ'.Sound) {m : Contents} (hm : σ.Pictured m) :
    t.Careful m := by
  have hexec := h m hm
  cases f with
  | error e =>
    intro e' m' hexec'
    rw [hexec] at hexec'
    exact (Prod.mk.inj hexec').2.symm
  | ok p =>
    obtain ⟨m', hdone, -⟩ := hexec (hf p.1 p.2 rfl)
    exact .of_done hdone

end Txn

namespace Ledger

open Txn

/-! ### Writings -/

theorem writeOwner_steady (previous : Option Asset) (a : Asset) :
    (Registry.writeOwner previous a).Steady := by
  have hset : (Txn.set (Key.owner a.owner a.id) []).Steady :=
    .set .ownerIndex (by simp [Key.owner, Key.pair]) trivial
  cases previous with
  | none => exact hset
  | some p =>
    rw [Registry.writeOwner]
    by_cases howner : p.owner = a.owner
    · rw [if_pos howner]
      exact .pure ()
    · rw [if_neg howner]
      exact .bind (.delete _) fun _ => hset

theorem writeReporters_steady (previous : Option Asset) (a : Asset) :
    (Registry.writeReporters previous a).Steady := by
  refine .bind (.forM fun r => .delete _) fun _ => .forM fun r => ?_
  exact .set .reporterIndex (by simp [Key.reporter, Key.pair]) trivial

theorem writeProperties_steady (a : Asset) : (Registry.writeProperties a).Steady := by
  refine .query (fun m _ => ⟨_, rfl⟩) fun stored => .bind (.forM fun entry => .delete _)
    fun _ => .forM fun p => ?_
  exact .set .property (by simp [Key.property, Key.pair]) ⟨p, rfl⟩

theorem write_steady (previous : Option Asset) (a : Asset) :
    (Registry.write previous a).Steady := by
  refine .bind (writeOwner_steady previous a) fun _ => .bind (writeReporters_steady previous a)
    fun _ => .bind (writeProperties_steady a) fun _ => ?_
  exact .set .asset (List.prefix_append _ _) ⟨_, rfl⟩

theorem put_steady (a : Asset) : (Registry.put a).Steady :=
  .query (fun _ hm => hm.record? a.id) fun previous => write_steady previous a

theorem create_guarded (a : Asset) : (Registry.create a).Guarded := by
  refine .query fun taken => ?_
  cases taken with
  | true => exact .refuse _
  | false => exact .steady (write_steady none a)

theorem writeBalance_steady (owner : AccountId) (root : AssetId) (amount : Nat) :
    (Inventory.write owner root amount).Steady := by
  rw [Inventory.write]
  split
  · exact .delete _
  · exact .set .inventory (by simp [Key.balance, Key.pair]) ⟨_, rfl⟩

theorem credit_steady (owner : AccountId) (root : AssetId) (amount : Nat) :
    (Inventory.credit owner root amount).Steady :=
  .query (fun _ hm => hm.balance owner root) fun _ =>
    .bind (writeBalance_steady owner root _) fun _ => .pure _

theorem debit_guarded (owner : AccountId) (root : AssetId) (amount : Nat) :
    (Inventory.debit owner root amount).Guarded :=
  .query fun _ => .verdict fun _ =>
    .bind (.steady (writeBalance_steady owner root _)) fun _ => .pure _

theorem move_guarded (giver taker : AccountId) (root : AssetId) (amount : Nat) :
    (Inventory.move giver taker root amount).Guarded := by
  rw [Inventory.move]
  split
  · exact .steady (.pure ())
  · exact .bind (debit_guarded giver root amount) fun _ =>
      .bind (credit_steady taker root amount) fun _ => .pure ()

theorem store_steady (o : Offer) : (OfferBook.store o).Steady := by
  refine .bind (.set .offer (by simp [Key.offer, Key.pair]) ⟨o, rfl⟩) fun _ => ?_
  exact .set .recipientIndex (by simp [Key.recipient, Key.pair]) trivial

theorem remove_steady (id : AssetId) (recipient : AccountId) :
    (OfferBook.remove id recipient).Steady := .bind (.delete _) fun _ => .delete _

theorem discard_steady (id : AssetId) : (OfferBook.discard id).Steady :=
  .query (fun _ hm => hm.onAsset id) fun _ =>
    .bind (.forM fun o => remove_steady id o.recipient) fun _ => .pure _

/-! ### Operations that are guarded on all legible contents -/

theorem finalize_guarded (id : AssetId) (sender : AccountId) : (finalize id sender).Guarded :=
  .query fun a => .verdict fun _ => .verdict fun _ =>
    .bind (.steady (put_steady { a with isFinal := true })) fun _ =>
      .bind (discard_steady id) fun _ => .pure _

theorem updateProperties_guarded (id : AssetId) (batch : List Property) (caller : AccountId) :
    (updateProperties id batch caller).Guarded :=
  .query fun _ => .verdict fun _ => .verdict fun _ => .verdicts <| .verdicts <|
    .bind (.steady (put_steady _)) fun _ => .pure _

theorem addQuantity_guarded (id : AssetId) (amount : Nat) (caller : AccountId) :
    (addQuantity id amount caller).Guarded :=
  .query fun a => .bind (.steady (credit_steady a.owner a.root amount)) fun _ =>
    .bind (put_steady _) fun _ => .pure _

theorem subtractQuantity_guarded (id : AssetId) (amount : Nat) (caller : AccountId) :
    (subtractQuantity id amount caller).Guarded :=
  .query fun a => .verdict fun _ => .bind (debit_guarded a.owner a.root amount) fun _ =>
    .bind (put_steady _) fun _ => .pure _

theorem createOffer_guarded (id : AssetId) (recipient : AccountId) (role : OfferRole)
    (names : List PropertyName) (issuer : AccountId) :
    (createOffer id recipient role names issuer).Guarded :=
  .query fun _ => .verdict fun _ => .verdict fun _ => .verdict fun _ => .verdict fun _ =>
    .query fun _ => .bind (.steady (store_steady _)) fun _ => .pure _

theorem transfer_guarded (a : Asset) (taker : AccountId) : (transfer a taker).Guarded :=
  .bind (move_guarded a.owner taker a.root a.quantity) fun _ =>
    .bind (put_steady _) fun _ => .pure _

theorem accept_guarded (id : AssetId) (recipient : AccountId) (a : Asset) (o : Offer)
    (now : UInt64) : (accept id recipient a o now).Guarded := by
  refine .verdict fun _ => ?_
  cases o.role with
  | owner => exact transfer_guarded a recipient
  | reporter => exact .bind (.steady (put_steady _)) fun _ => .pure _

theorem answerOffer_guarded (id : AssetId) (recipient : AccountId) (response : Response)
    (respondent : AccountId) (now : UInt64) :
    (answerOffer id recipient response respondent now).Guarded := by
  refine .query fun a => .verdict fun _ => .query fun o => .verdict fun _ => ?_
  have hremove : ∀ answered : Asset, (OfferBook.remove id recipient >>= fun _ =>
      pure ⟨{ o with status := response.status }, answered⟩ : Txn Answer).Steady :=
    fun _ => .bind (remove_steady id recipient) fun _ => .pure _
  by_cases haccept : response = .accept
  · rw [if_pos haccept]
    exact .bind (accept_guarded id recipient a o now) hremove
  · rw [if_neg haccept]
    exact .bind (.steady (.pure a)) hremove

theorem revokeOffer_guarded (id : AssetId) (recipient : AccountId) (names : List PropertyName)
    (issuer : AccountId) : (revokeOffer id recipient names issuer).Guarded := by
  refine .query fun _ => .verdict fun _ => .verdict fun _ => .query fun o => .verdict fun _ =>
    .verdict fun _ => ?_
  by_cases hleft : (o.names.filter fun n => !names.contains n).isEmpty = true
  · rw [if_pos hleft]
    exact .bind (.steady (remove_steady id recipient)) fun _ => .pure _
  · rw [if_neg hleft]
    exact .bind (.steady (store_steady _)) fun _ => .pure _

theorem createReporter_guarded (id : AssetId) (reporter : AccountId) (names : List PropertyName)
    (caller : AccountId) (now : UInt64) :
    (createReporter id reporter names caller now).Guarded :=
  .query fun _ => .verdict fun _ => .verdict fun _ => .verdict fun _ => .verdict fun _ =>
    .bind (.steady (put_steady _)) fun _ => .pure _

theorem revokeReporter_guarded (id : AssetId) (reporter caller : AccountId) :
    (revokeReporter id reporter caller).Guarded :=
  .query fun _ => .verdict fun _ => .verdict fun _ => .verdict fun _ =>
    .bind (.steady (put_steady _)) fun _ => .pure _

/-! ### Operations on pictured records -/

open Records

variable {σ : Records} {m : Contents}

/-- The child's identifier is still free after the parent was written, as the parent has its own. -/
theorem split_careful (hm : σ.Pictured m) {p : Asset} (child : Asset)
    (hp : σ.asset? p.id = some p) (hfree : σ.asset? child.id = none) (quantity : Nat) :
    (Registry.put { p with quantity := quantity } >>= fun _ => Registry.create child >>= fun _ =>
      pure child : Txn Asset).Careful m := by
  have hne : child.id ≠ p.id := fun heq => by simp [heq, hp] at hfree
  have hs := hm.sound.wellFormed.storable hp
  obtain ⟨m₁, hput, h₁⟩ := hm.mirrors.put (a := { p with quantity := quantity })
    ⟨hs.id, hs.owner, hs.names, hs.reporters, hs.ascending⟩
  have hfree₁ : (σ.put { p with quantity := quantity }).asset? child.id = none := by
    rw [asset?_put, if_neg hne, hfree]
  have hcontains : (liftM (Registry.contains child.id) : Txn Bool).exec m₁ = (.ok false, m₁) := by
    rw [exec_query, h₁.contains, hfree₁]
    rfl
  obtain ⟨u, m₂, hwrite, -⟩ := write_steady none child m₁ h₁.legible
  have hcreate : (Registry.create child).exec m₁ = (.ok u, m₂) :=
    (exec_bind_of_ok hcontains _).trans hwrite
  exact .of_done ((exec_bind_of_ok hput _).trans (exec_bind_of_ok hcreate _))

theorem createAsset_careful (hm : σ.Pictured m) (id : AssetId) (name : String) (quantity : Nat)
    (unit : String) (parent : Option AssetId) (properties : List Property) (sender : AccountId) :
    (createAsset id name quantity unit parent properties sender).Careful m := by
  have hcontains : (liftM (Registry.contains id) : Txn Bool).exec m =
      (.ok (σ.asset? id).isSome, m) := by rw [exec_query, hm.mirrors.contains]
  refine .read hcontains fun taken htaken => ?_
  obtain rfl := Except.ok.inj htaken
  by_cases htaken : (σ.asset? id).isSome = true
  · rw [if_pos htaken]
    exact (Guarded.refuse _).careful hm.mirrors.legible
  · rw [if_neg htaken]
    have hfree : σ.asset? id = none := by simpa using htaken
    refine .read (exec_forM_verdict _ _ m) fun _ _ => ?_
    cases parent with
    | none =>
      have hissue : ∀ a : Asset, (Registry.create a >>= fun _ =>
          Inventory.credit a.owner a.root a.quantity >>= fun _ => pure a : Txn Asset).Guarded :=
        fun a => .bind (create_guarded a) fun _ =>
          .bind (credit_steady a.owner a.root a.quantity) fun _ => .pure a
      exact (hissue _).careful hm.mirrors.legible
    | some parentId =>
      have hget : (liftM (Registry.get parentId) : Txn Asset).exec m = (σ.get parentId, m) := by
        rw [exec_query, hm.mirrors.get]
      refine .read hget fun p hp => .read (exec_verdict _ m) fun _ _ =>
        .read (exec_verdict _ m) fun _ _ => .read (exec_verdict _ m) fun _ _ => ?_
      let child := { Asset.fresh id name sender quantity unit with
        properties := Property.normalize properties
        parent := some parentId
        root := p.root }
      exact split_careful hm child (hm.asset?_id hp) hfree (p.quantity - quantity)

/-- A batch of materials names no identifier that is not stored already, so what it leaves is
sound. -/
theorem addMaterials_careful (hm : σ.Pictured m) (id : AssetId) (materials : List Material)
    (caller : AccountId) : (addMaterials id materials caller).Careful m := by
  refine (addMaterials_follows id materials caller).careful (fun a σ' hok => ?_) hm
  have hstep := step_of_addMaterials hm.sound.wellFormed hok 0
  refine hstep.sound hm.sound ?_
  cases hstep with
  | @compose _ _ target _ htarget _ howner _ _ _ =>
    have hs := hm.sound.wellFormed.storable htarget
    have hid := hm.sound.wellFormed.id_eq htarget
    exact ⟨howner ▸ hs.owner, hid ▸ hs.id, nofun, nofun⟩

end Ledger

/-! ### All or nothing -/

/-- If the transaction is refused, it leaves the store as it is. -/
def Txn.AllOrNothing {α : Type} (t : Txn α) (s : Store) : Prop :=
  ∀ fault s', t.run s = (.error fault, s') → s' = s

theorem Txn.Careful.allOrNothing {α : Type} {t : Txn α} {m : Contents} (h : t.Careful m) :
    t.AllOrNothing (.ofContents m) := by
  intro fault s' hrun
  rw [run_ofContents] at hrun
  obtain ⟨hverdict, hstore⟩ := Prod.mk.inj hrun
  rw [← hstore, h fault (t.exec m).2 (Prod.ext hverdict rfl)]

namespace Ledger

/-- Every operation, run on the store itself, leaves it as it is if it is refused, for whatever
identifiers. -/
structure AllOrNothing (s : Store) : Prop where
  create : ∀ a, (Registry.create a).AllOrNothing s
  put : ∀ a, (Registry.put a).AllOrNothing s
  credit : ∀ owner root amount, (Inventory.credit owner root amount).AllOrNothing s
  debit : ∀ owner root amount, (Inventory.debit owner root amount).AllOrNothing s
  move : ∀ giver taker root amount, (Inventory.move giver taker root amount).AllOrNothing s
  createAsset : ∀ id name quantity unit parent properties sender,
    (createAsset id name quantity unit parent properties sender).AllOrNothing s
  finalize : ∀ id sender, (finalize id sender).AllOrNothing s
  addQuantity : ∀ id amount caller, (addQuantity id amount caller).AllOrNothing s
  subtractQuantity : ∀ id amount caller, (subtractQuantity id amount caller).AllOrNothing s
  addMaterials : ∀ id materials caller, (addMaterials id materials caller).AllOrNothing s
  updateProperties : ∀ id batch caller, (updateProperties id batch caller).AllOrNothing s
  createOffer : ∀ id recipient role names issuer,
    (createOffer id recipient role names issuer).AllOrNothing s
  answerOffer : ∀ id recipient response respondent now,
    (answerOffer id recipient response respondent now).AllOrNothing s
  revokeOffer : ∀ id recipient names issuer,
    (revokeOffer id recipient names issuer).AllOrNothing s
  discard : ∀ id, (OfferBook.discard id).AllOrNothing s
  createReporter : ∀ id reporter names caller now,
    (createReporter id reporter names caller now).AllOrNothing s
  revokeReporter : ∀ id reporter caller, (revokeReporter id reporter caller).AllOrNothing s

/-- **Every operation is all or nothing.**  After a run, an operation that is refused, run on the
store itself and without a layer over it, has written nothing: whatever can go wrong is found before
the first write.  This holds for any arguments, also for identifiers that the checks on an envelope
refuse. -/
theorem operations_all_or_nothing (config : ModuleConfig) (es : List Envelope) :
    AllOrNothing (run config es .empty) := by
  obtain ⟨σ, m, hrun, hm, -⟩ := run_history config es
  have hguarded : ∀ {α : Type} {t : Txn α}, t.Guarded → t.AllOrNothing (.ofContents m) :=
    fun ht => (ht.careful hm.mirrors.legible).allOrNothing
  rw [hrun]
  constructor
  case create => exact fun a => hguarded (create_guarded a)
  case put => exact fun a => hguarded (.steady (put_steady a))
  case credit => exact fun owner root amount => hguarded (.steady (credit_steady owner root amount))
  case debit => exact fun owner root amount => hguarded (debit_guarded owner root amount)
  case move => exact fun giver taker root amount => hguarded (move_guarded giver taker root amount)
  case createAsset =>
    exact fun id name quantity unit parent properties sender =>
      (createAsset_careful hm id name quantity unit parent properties sender).allOrNothing
  case finalize => exact fun id sender => hguarded (finalize_guarded id sender)
  case addQuantity => exact fun id amount caller => hguarded (addQuantity_guarded id amount caller)
  case subtractQuantity =>
    exact fun id amount caller => hguarded (subtractQuantity_guarded id amount caller)
  case addMaterials =>
    exact fun id materials caller => (addMaterials_careful hm id materials caller).allOrNothing
  case updateProperties =>
    exact fun id batch caller => hguarded (updateProperties_guarded id batch caller)
  case createOffer =>
    exact fun id recipient role names issuer =>
      hguarded (createOffer_guarded id recipient role names issuer)
  case answerOffer =>
    exact fun id recipient response respondent now =>
      hguarded (answerOffer_guarded id recipient response respondent now)
  case revokeOffer =>
    exact fun id recipient names issuer =>
      hguarded (revokeOffer_guarded id recipient names issuer)
  case discard => exact fun id => hguarded (.steady (discard_steady id))
  case createReporter =>
    exact fun id reporter names caller now =>
      hguarded (createReporter_guarded id reporter names caller now)
  case revokeReporter =>
    exact fun id reporter caller => hguarded (revokeReporter_guarded id reporter caller)

end Ledger

end Custody
