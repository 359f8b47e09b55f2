import Custody.Proofs.Records.Roles

/-!
# Accounting for quantities

An asset accounts for a **share** of the quantity of another: what it was made of, or for the asset
itself also what is left of it.  A step changes the shares of an asset, added up, by what its message
says, and by nothing else: consuming a component only moves its quantity into another share.

* `Records.share`: what an asset accounts for.
* `Records.Step.accounts`: **a step keeps account of every quantity.**
* `Records.Step.length_issued`: an asset is made once.
-/

namespace Custody

namespace Message

/-! ### What messages say about an asset -/

/-- The quantity that the message adds to the asset. -/
def added (c : AssetId) : Message → Nat
  | addQuantity id amount => if id = c then amount else 0
  | _ => 0

/-- The quantity that the message subtracts from the asset. -/
def subtracted (c : AssetId) : Message → Nat
  | subtractQuantity id amount => if id = c then amount else 0
  | _ => 0

/-- The quantity that the message splits off the asset, for a child. -/
def splitOff (c : AssetId) : Message → Nat
  | createAsset _ _ quantity _ parent _ => if parent = some c then quantity else 0
  | _ => 0

theorem getD_issued? {id : AssetId} {name : String} {quantity : Nat} {unit : String}
    {parent : Option AssetId} {properties : List Property} (c : AssetId) :
    ((createAsset id name quantity unit parent properties).issued? c).getD 0 =
      if id = c then quantity else 0 := by
  rw [issued?]
  split <;> rfl

end Message

namespace Records

/-- The quantity of an asset that another one accounts for. -/
def share (c : AssetId) (a : Asset) : Nat :=
  (if a.id = c then a.quantity else 0) + Material.amount c a.materials

variable {σ σ' : Records} {sender : AccountId} {now : UInt64} {message : Message}

theorem share_leftOf (c : AssetId) {t : Asset × Nat} (h : t.2 ≤ t.1.quantity) :
    share c (leftOf t) + (if t.1.id = c then t.2 else 0) = share c t.1 := by
  simp only [share, leftOf]
  by_cases hid : t.1.id = c
  · simp only [hid, if_true]
    omega
  · simp only [hid, if_false, Nat.add_zero]

theorem share_granted (c : AssetId) (a : Asset) (recipient : AccountId) (o : Offer)
    (now : UInt64) : share c (granted a recipient o now) = share c a := by
  rw [granted]
  cases o.role with
  | owner => rfl
  | reporter => rfl

/-- What is taken from the components is what the materials ask for. -/
theorem Takes.sum_taken {consumer : AssetId} {caller : AccountId} {demand : List Material}
    {taken : List (Asset × Nat)} (h : σ.Takes consumer caller demand taken) (c : AssetId) :
    (taken.map fun t => if t.1.id = c then t.2 else 0).sum = Material.amount c demand := by
  rw [Material.amount, ← h.demand_eq, List.map_map]
  rfl

/-- Consuming takes from the shares of the components what the materials ask for. -/
theorem Takes.total_share {consumer : AssetId} {caller : AccountId} {demand : List Material}
    {taken : List (Asset × Nat)} (h : σ.Takes consumer caller demand taken) (c : AssetId) :
    (taken.foldl consume σ).total (share c) + Material.amount c demand = σ.total (share c) := by
  have hconsume := total_foldl_consume (share c) h.consumable
  have hleft : (taken.map fun t => share c t.1).sum =
      (taken.map fun t => share c (leftOf t)).sum +
        (taken.map fun t => if t.1.id = c then t.2 else 0).sum := by
    rw [← List.sum_map_add]
    refine congrArg List.sum (List.map_congr_left ?_)
    intro t ht
    exact (share_leftOf c (h.takable t ht).covered).symm
  have htaken := h.sum_taken c
  omega

-- a change of one quantity is a change of the share that the asset has of itself
theorem total_share_leftOf {t : Asset × Nat} (ht : σ.asset? t.1.id = some t.1)
    (h : t.2 ≤ t.1.quantity) (c : AssetId) :
    (σ.put (leftOf t)).total (share c) + (if t.1.id = c then t.2 else 0) =
      σ.total (share c) := by
  have hput := σ.total_put_of_some (share c) (a := leftOf t) ht
  have hshare := share_leftOf c h
  omega

theorem total_share_fresh {a : Asset} (hfree : σ.asset? a.id = none) (hmaterials : a.materials = [])
    (c : AssetId) :
    (σ.put a).total (share c) = σ.total (share c) + if a.id = c then a.quantity else 0 := by
  rw [σ.total_put_of_none (share c) hfree, share, hmaterials, Material.amount_nil, Nat.add_zero]

theorem total_share_add {a : Asset} (ha : σ.asset? a.id = some a) (amount : Nat) (c : AssetId) :
    (σ.put { a with quantity := a.quantity + amount }).total (share c) =
      σ.total (share c) + if a.id = c then amount else 0 := by
  have hput := σ.total_put_of_some (share c) (a := { a with quantity := a.quantity + amount }) ha
  simp only [share] at hput
  by_cases hid : a.id = c
  · simp only [hid, if_true] at hput ⊢
    omega
  · simp only [hid, if_false] at hput ⊢
    omega

/-- What is taken from the components goes into what the consumer is made of. -/
theorem Takes.total_share_composed {a : Asset} {caller : AccountId} {materials : List Material}
    {taken : List (Asset × Nat)} (ha : σ.asset? a.id = some a)
    (h : σ.Takes a.id caller (Material.normalize materials) taken) (c : AssetId) :
    ((taken.foldl consume σ).put
        { a with materials := Material.merge a.materials (Material.normalize materials) }).total
          (share c) = σ.total (share c) := by
  have htaken := h.total_share c
  have hput := (taken.foldl consume σ).total_put_of_some (share c)
    (a := { a with materials := Material.merge a.materials (Material.normalize materials) })
    (h.asset?_consumer.trans ha)
  have hshare : share c
      { a with materials := Material.merge a.materials (Material.normalize materials) } =
      share c a + Material.amount c (Material.normalize materials) := by
    simp only [share, Material.amount_merge, Nat.add_assoc]
  omega

/-- **A step keeps account of every quantity.** -/
theorem Step.accounts (h : σ.Step sender now message σ') (hσ : σ.WellFormed) (c : AssetId) :
    σ'.total (share c) + message.subtracted c + message.splitOff c =
      σ.total (share c) + (message.issued? c).getD 0 + message.added c := by
  cases h with
  | @issue id name quantity unit properties hfree =>
    have htotal := total_share_fresh
      (a := freshAsset id name quantity unit properties sender) hfree rfl c
    rw [htotal, Message.getD_issued?]
    rfl
  | @split id name quantity unit parent properties p hfree hp hmutable howner hle =>
    obtain rfl := hσ.id_eq hp
    have hne : id ≠ p.id := by
      rintro rfl
      exact nomatch hfree.symm.trans hp
    have hleft : (σ.put (leftOf (p, quantity))).total (share c) +
        (if p.id = c then quantity else 0) = σ.total (share c) :=
      total_share_leftOf (t := (p, quantity)) (hσ.asset?_id hp) hle c
    have hfree' : (σ.put (leftOf (p, quantity))).asset? id = none := by
      rw [asset?_put]
      exact (if_neg hne).trans hfree
    have htotal := total_share_fresh
      (a := splitFrom p.id p.root (freshAsset id name quantity unit properties sender))
      hfree' rfl c
    have hsplit : (Message.createAsset id name quantity unit (some p.id) properties).splitOff c =
        if p.id = c then quantity else 0 := by
      simp only [Message.splitOff, Option.some.injEq]
    rw [htotal, hsplit, Message.getD_issued?]
    change _ + (if id = c then quantity else 0) + 0 + _ = _ + _ + 0
    omega
  | @add id amount a ha hmutable howner hamount =>
    obtain rfl := hσ.id_eq ha
    exact total_share_add ha amount c
  | @subtract id amount a ha hmutable howner hamount hle =>
    obtain rfl := hσ.id_eq ha
    exact total_share_leftOf (t := (a, amount)) ha hle c
  | @compose id materials a taken ha hmutable howner hsome hpositive htakes =>
    obtain rfl := hσ.id_eq ha
    exact htakes.total_share_composed ha c
  | @write id batch a ha hmutable hsome hpermits =>
    obtain rfl := hσ.id_eq ha
    exact σ.total_put_of_eq (share c) ha rfl
  | @freeze id a ha hmutable howner =>
    obtain rfl := hσ.id_eq ha
    exact σ.total_put_of_eq (share c) (a := { a with isFinal := true }) ha rfl
  | offer ha hmutable howner hother hnames => rfl
  | decline ha hmutable ho hresponse hsender => rfl
  | @accept id a o ha hmutable ho howner =>
    have hstored : σ.asset? (granted a sender o now).id = some a :=
      (congrArg σ.asset? (granted_id a sender o now)).trans (hσ.asset?_id ha)
    exact σ.total_put_of_eq (share c) hstored (share_granted c a sender o now)
  | withdraw ha hmutable howner ho hrole hsome hleft => rfl
  | narrow ha hmutable howner ho hrole hsome hleft => rfl
  | @appoint id reporter names a ha hmutable howner hother hsome =>
    obtain rfl := hσ.id_eq ha
    exact σ.total_put_of_eq (share c) ha rfl
  | @dismiss id reporter a r ha hmutable howner hr =>
    obtain rfl := hσ.id_eq ha
    exact σ.total_put_of_eq (share c) ha rfl

/-- **An asset is made once.** -/
theorem Step.length_issued (h : σ.Step sender now message σ') (hσ : σ.WellFormed) (c : AssetId) :
    (σ'.asset? c).toList.length =
      (σ.asset? c).toList.length + (message.issued? c).toList.length := by
  have hroles := h.roles hσ c
  have hlength : ∀ o : Option Asset, o.toList.length = (o.map Asset.roles).toList.length := by
    rintro (_ | _) <;> rfl
  rw [hlength (σ'.asset? c)]
  generalize (σ'.asset? c).map Asset.roles = roles at hroles
  cases hroles with
  | keep hissued hdecides =>
    rw [hissued, hlength]
    rfl
  | make hfree hissued =>
    rw [hissued, hfree]
    rfl
  | takeOver ha ho howner hrole =>
    rw [ha]
    rfl
  | join ha ho howner hrole =>
    rw [ha]
    rfl
  | appoint ha howner =>
    rw [ha]
    rfl
  | dismiss ha =>
    rw [ha]
    rfl

end Records

end Custody
