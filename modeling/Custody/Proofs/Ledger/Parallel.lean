import Custody.Proofs.Ledger.Run
import Custody.Proofs.Records.Parallel

/-!
# Envelopes on contents that resemble each other

No operation of the ledger decides anything by a property, nor by the bytes in which a record is
written.  So every operation is parallel to itself, and an envelope has the same outcome on contents
that resemble each other and leaves contents that do.

* `Ledger.execute_parallel`: a message, run on both sides.
* `Ledger.dispatch_parallel`: **an envelope keeps contents alike.**
-/

namespace Custody.Ledger

open Txn

/-! ### Operations on assets -/

theorem createAsset_parallel (id : AssetId) (name : String) (quantity : Nat) (unit : String)
    (parent : Option AssetId) (properties : List Property) (sender : AccountId) :
    Txn.Parallel Asset.Like (createAsset id name quantity unit parent properties sender)
      (createAsset id name quantity unit parent properties sender) := by
  refine .query (Registry.contains_parallel id) ?_
  rintro (_ | _) _ rfl
  · refine .verdicts ?_
    cases parent with
    | none =>
      exact .bind (Registry.create_parallel _) fun _ _ _ =>
        .bind (Inventory.credit_parallel _ _ _) fun _ _ _ => .pure (.refl _)
    | some parentId =>
      refine .query (Registry.get_parallel parentId) ?_
      rintro p _ ⟨l, rfl⟩
      exact .verdict fun _ => .verdict fun _ => .verdict fun _ =>
        .bind (Registry.put_parallel ⟨l, rfl⟩) fun _ _ _ =>
          .bind (Registry.create_parallel _) fun _ _ _ => .pure (.refl _)
  · exact .refuse _ _

theorem finalize_parallel (id : AssetId) (sender : AccountId) :
    Txn.Parallel Asset.Like (finalize id sender) (finalize id sender) := by
  refine .query (Registry.get_parallel id) ?_
  rintro a _ ⟨l, rfl⟩
  exact .verdict fun _ => .verdict fun _ => .bind (Registry.put_parallel ⟨l, rfl⟩) fun _ _ _ =>
    .bind (OfferBook.discard_parallel id) fun _ _ _ => .pure ⟨l, rfl⟩

theorem updateProperties_parallel (id : AssetId) (batch : List Property) (caller : AccountId) :
    Txn.Parallel Asset.Like (updateProperties id batch caller)
      (updateProperties id batch caller) := by
  refine .query (Registry.get_parallel id) ?_
  rintro a _ ⟨l, rfl⟩
  exact .verdict fun _ => .verdict fun _ => .verdicts <| .verdicts <|
    .bind (Registry.put_parallel ⟨_, rfl⟩) fun _ _ _ => .pure ⟨_, rfl⟩

theorem createReporter_parallel (id : AssetId) (reporter : AccountId) (names : List PropertyName)
    (caller : AccountId) (now : UInt64) :
    Txn.Parallel Asset.Like (createReporter id reporter names caller now)
      (createReporter id reporter names caller now) := by
  refine .query (Registry.get_parallel id) ?_
  rintro a _ ⟨l, rfl⟩
  exact .verdict fun _ => .verdict fun _ => .verdict fun _ => .verdict fun _ =>
    .bind (Registry.put_parallel ⟨l, rfl⟩) fun _ _ _ => .pure ⟨l, rfl⟩

theorem revokeReporter_parallel (id : AssetId) (reporter caller : AccountId) :
    Txn.Parallel Asset.Like (revokeReporter id reporter caller)
      (revokeReporter id reporter caller) := by
  refine .query (Registry.get_parallel id) ?_
  rintro a _ ⟨l, rfl⟩
  exact .verdict fun _ => .verdict fun _ => .verdict fun _ =>
    .bind (Registry.put_parallel ⟨l, rfl⟩) fun _ _ _ => .pure ⟨l, rfl⟩

/-! ### Quantities -/

theorem forChange_parallel (id : AssetId) (amount : Nat) (caller : AccountId) (action : Action) :
    (forChange id amount caller action).Parallel Asset.Like
      (forChange id amount caller action) := by
  refine .bind (Registry.get_parallel id) ?_
  rintro a _ ⟨l, rfl⟩
  exact .verdict fun _ => .verdict fun _ => .verdict fun _ => .pure ⟨l, rfl⟩

theorem addQuantity_parallel (id : AssetId) (amount : Nat) (caller : AccountId) :
    Txn.Parallel Asset.Like (addQuantity id amount caller) (addQuantity id amount caller) := by
  refine .query (forChange_parallel id amount caller .addQuantity) ?_
  rintro a _ ⟨l, rfl⟩
  exact .bind (Inventory.credit_parallel a.owner a.root amount) fun _ _ _ =>
    .bind (Registry.put_parallel ⟨l, rfl⟩) fun _ _ _ => .pure ⟨l, rfl⟩

theorem subtractQuantity_parallel (id : AssetId) (amount : Nat) (caller : AccountId) :
    Txn.Parallel Asset.Like (subtractQuantity id amount caller)
      (subtractQuantity id amount caller) := by
  refine .query (forChange_parallel id amount caller .subtractQuantity) ?_
  rintro a _ ⟨l, rfl⟩
  exact .verdict fun _ => .bind (Inventory.debit_parallel a.owner a.root amount) fun _ _ _ =>
    .bind (Registry.put_parallel ⟨l, rfl⟩) fun _ _ _ => .pure ⟨l, rfl⟩

/-! ### Materials -/

theorem component_parallel (consumer : AssetId) (caller : AccountId) (m : Material) :
    (component consumer caller m).Parallel Asset.Like (component consumer caller m) := by
  refine .verdict fun _ => .bind (Registry.find?_parallel m.component) fun o o₀ h => ?_
  cases h with
  | none => exact .refuse _ _
  | some h =>
    obtain ⟨l, rfl⟩ := h
    exact .verdict fun _ => .verdict fun _ => .verdict fun _ => .pure ⟨l, rfl⟩

theorem checkRoot_parallel (caller : AccountId) (root : AssetId) (needed : Nat) :
    (checkRoot caller root needed).Parallel Eq (checkRoot caller root needed) := by
  refine .bind (Inventory.balance_parallel caller root) ?_
  rintro available _ rfl
  exact fun _ _ _ => .same _

/-- The same amount, taken from assets that are alike. -/
def TakenAlike (t t₀ : Asset × Nat) : Prop := t.1.Like t₀.1 ∧ t.2 = t₀.2

theorem takenAlike_zip {l l₀ : List Asset} (h : List.Forall₂ Asset.Like l l₀) (amounts : List Nat) :
    List.Forall₂ TakenAlike (l.zip amounts) (l₀.zip amounts) := by
  induction h generalizing amounts with
  | nil => exact .nil
  | cons h _ ih =>
    cases amounts with
    | nil => exact .nil
    | cons amount rest => exact .cons ⟨h, rfl⟩ (ih rest)

theorem rootTotals_eq {taken taken₀ : List (Asset × Nat)}
    (h : List.Forall₂ TakenAlike taken taken₀) : rootTotals taken = rootTotals taken₀ := by
  refine List.rel_foldl (P := Eq) (R := TakenAlike) ?_ rfl h
  rintro sums _ rfl ⟨a, amount⟩ ⟨_, _⟩ ⟨⟨l, rfl⟩, rfl⟩
  rfl

theorem checkRoots_parallel (caller : AccountId) {taken taken₀ : List (Asset × Nat)}
    (h : List.Forall₂ TakenAlike taken taken₀) :
    Txn.Parallel Eq
      ((rootTotals taken).bindings.forM fun b => (checkRoot caller b.1 b.2 : Query Unit))
      ((rootTotals taken₀).bindings.forM fun b => (checkRoot caller b.1 b.2 : Query Unit)) := by
  rw [rootTotals_eq h]
  exact .forM_same fun b => .lift (checkRoot_parallel caller b.1 b.2)

theorem consume_parallel (caller : AccountId) {t t₀ : Asset × Nat} (h : TakenAlike t t₀) :
    Txn.Parallel Eq (consume caller t.1 t.2) (consume caller t₀.1 t₀.2) := by
  obtain ⟨a, amount⟩ := t
  obtain ⟨_, _⟩ := t₀
  obtain ⟨⟨l, rfl⟩, rfl⟩ := h
  exact .bind (Inventory.debit_parallel caller a.root amount) fun _ _ _ =>
    Registry.put_parallel ⟨l, rfl⟩

theorem addMaterials_parallel (id : AssetId) (materials : List Material) (caller : AccountId) :
    Txn.Parallel Asset.Like (addMaterials id materials caller)
      (addMaterials id materials caller) := by
  refine .query (Registry.get_parallel id) ?_
  rintro target _ ⟨l, rfl⟩
  refine .verdict fun _ => .verdict fun _ => .verdict fun _ => .verdict fun _ =>
    .query (.mapM fun m => component_parallel id caller m) fun components components₀ h => ?_
  have htaken := takenAlike_zip h ((Material.normalize materials).map Material.quantity)
  exact .bind (checkRoots_parallel caller htaken) fun _ _ _ =>
    .bind (.forM htaken fun _ _ ht => consume_parallel caller ht) fun _ _ _ =>
      .bind (Registry.put_parallel ⟨l, rfl⟩) fun _ _ _ => .pure ⟨l, rfl⟩

/-! ### Offers -/

theorem createOffer_parallel (id : AssetId) (recipient : AccountId) (role : OfferRole)
    (names : List PropertyName) (issuer : AccountId) :
    Txn.Parallel Eq (createOffer id recipient role names issuer)
      (createOffer id recipient role names issuer) := by
  refine .query (Registry.get_parallel id) ?_
  rintro a _ ⟨l, rfl⟩
  exact .verdict fun _ => .verdict fun _ => .verdict fun _ => .verdict fun _ =>
    .query (OfferBook.find?_parallel id recipient) fun _ _ _ =>
      .bind (OfferBook.store_parallel _) fun _ _ _ => .pure rfl

theorem transfer_parallel {a a₀ : Asset} (h : a.Like a₀) (taker : AccountId) :
    Txn.Parallel Asset.Like (transfer a taker) (transfer a₀ taker) := by
  obtain ⟨l, rfl⟩ := h
  exact .bind (Inventory.move_parallel a.owner taker a.root a.quantity) fun _ _ _ =>
    .bind (Registry.put_parallel ⟨l, rfl⟩) fun _ _ _ => .pure ⟨l, rfl⟩

theorem accept_parallel (id : AssetId) (recipient : AccountId) {a a₀ : Asset} (h : a.Like a₀)
    (o : Offer) (now : UInt64) :
    Txn.Parallel Asset.Like (accept id recipient a o now) (accept id recipient a₀ o now) := by
  obtain ⟨l, rfl⟩ := h
  refine .verdict fun _ => ?_
  cases o.role with
  | owner => exact transfer_parallel ⟨l, rfl⟩ recipient
  | reporter => exact .bind (Registry.put_parallel ⟨l, rfl⟩) fun _ _ _ => .pure ⟨l, rfl⟩

theorem answerOffer_parallel (id : AssetId) (recipient : AccountId) (response : Response)
    (respondent : AccountId) (now : UInt64) :
    Txn.Parallel (fun x x₀ => x.offer = x₀.offer)
      (answerOffer id recipient response respondent now)
      (answerOffer id recipient response respondent now) := by
  refine .query (Registry.get_parallel id) ?_
  rintro a _ ⟨l, rfl⟩
  refine .verdict fun _ => .query (OfferBook.get_parallel id recipient) ?_
  rintro o _ rfl
  refine .verdict fun _ => ?_
  have hremove : ∀ answered answered₀ : Asset, Txn.Parallel (fun x x₀ => x.offer = x₀.offer)
      (OfferBook.remove id recipient >>= fun _ =>
        pure ⟨{ o with status := response.status }, answered⟩ : Txn Answer)
      (OfferBook.remove id recipient >>= fun _ =>
        pure ⟨{ o with status := response.status }, answered₀⟩ : Txn Answer) :=
    fun _ _ => .bind (OfferBook.remove_parallel id recipient) fun _ _ _ => .pure rfl
  dsimp only
  by_cases haccept : response = .accept
  · rw [if_pos haccept, if_pos haccept]
    exact .bind (accept_parallel id recipient ⟨l, rfl⟩ o now) fun _ _ _ => hremove _ _
  · rw [if_neg haccept, if_neg haccept]
    exact hremove _ _

theorem revokeOffer_parallel (id : AssetId) (recipient : AccountId) (names : List PropertyName)
    (issuer : AccountId) :
    Txn.Parallel Eq (revokeOffer id recipient names issuer)
      (revokeOffer id recipient names issuer) := by
  refine .query (Registry.get_parallel id) ?_
  rintro a _ ⟨l, rfl⟩
  refine .verdict fun _ => .verdict fun _ => .query (OfferBook.get_parallel id recipient) ?_
  rintro o _ rfl
  refine .verdict fun _ => .verdict fun _ => ?_
  by_cases hleft : (o.names.filter fun n => !names.contains n).isEmpty = true
  · rw [if_pos hleft]
    exact .bind (OfferBook.remove_parallel id recipient) fun _ _ _ => .pure rfl
  · rw [if_neg hleft]
    exact .bind (OfferBook.store_parallel _) fun _ _ _ => .pure rfl

/-! ### Messages -/

/-- **A message does the same on both sides.** -/
theorem execute_parallel (e : Envelope) : Txn.Parallel Eq (execute e) (execute e) := by
  obtain ⟨sender, now, message⟩ := e
  cases message with
  | createAsset id name quantity unit parent properties =>
    exact .bind (createAsset_parallel _ _ _ _ _ _ _) fun _ _ _ => .pure rfl
  | addQuantity asset amount => exact .bind (addQuantity_parallel _ _ _) fun _ _ _ => .pure rfl
  | subtractQuantity asset amount =>
    exact .bind (subtractQuantity_parallel _ _ _) fun _ _ _ => .pure rfl
  | addMaterials asset materials =>
    exact .bind (addMaterials_parallel _ _ _) fun _ _ _ => .pure rfl
  | updateProperties asset properties =>
    exact .bind (updateProperties_parallel _ _ _) fun _ _ _ => .pure rfl
  | finalize asset => exact .bind (finalize_parallel _ _) fun _ _ _ => .pure rfl
  | createOffer asset recipient role names =>
    exact .bind (createOffer_parallel _ _ _ _ _) fun _ _ _ => .pure rfl
  | answerOffer asset recipient response =>
    refine .bind (answerOffer_parallel _ _ _ _ _) fun x x₀ h => ?_
    rw [h]
    exact .pure rfl
  | revokeOffer asset recipient names =>
    refine .bind (revokeOffer_parallel _ _ _ _) ?_
    rintro left _ rfl
    exact .pure rfl
  | createReporter asset reporter names =>
    exact .bind (createReporter_parallel _ _ _ _ _) fun _ _ _ => .pure rfl
  | revokeReporter asset reporter =>
    exact .bind (revokeReporter_parallel _ _ _) fun _ _ _ => .pure rfl

/-- **An envelope keeps contents alike.**  It is applied on both sides, with one outcome, or refused
on both. -/
theorem dispatch_parallel (config : ModuleConfig) (e : Envelope) {m m₀ : Contents}
    (hm : m.Resembles m₀) : ∃ verdict verdict₀ m' m₀',
    dispatch config e (.ofContents m) = (verdict, .ofContents m') ∧
      dispatch config e (.ofContents m₀) = (verdict₀, .ofContents m₀') ∧
      Verdict.Parallel Eq verdict verdict₀ ∧ m'.Resembles m₀' := by
  rw [dispatch, dispatch]
  cases e.check config.limits with
  | error fault => exact ⟨_, _, m, m₀, rfl, rfl, .error _ _, hm⟩
  | ok u =>
    have hout := execute_parallel e m m₀ hm
    simp only [atomically_ofContents]
    generalize (execute e).exec m = x, (execute e).exec m₀ = x₀ at hout ⊢
    cases hout with
    | done h hm' => exact ⟨_, _, _, _, rfl, rfl, .ok h, hm'⟩
    | refused e e₀ m' m₀' => exact ⟨_, _, m, m₀, rfl, rfl, .error e e₀, hm⟩

end Custody.Ledger
