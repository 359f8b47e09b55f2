import Custody.Proofs.Bisection
import Custody.Proofs.Records.Effects
import Custody.Proofs.Records.Writing

/-!
# By what right a step is made

An offer is made, replaced and narrowed by the owner of its asset; it leaves the book by its
recipient, its issuer or the owner.  A balance is changed by the account that it belongs to, or as
that account hands over an asset that it had offered.

* `Asset.right_of_permits_write`: who may write a property.
* `Records.Step.owner_of_offered`, `Records.Step.right_of_removed`: the rights over offers.
* `Records.Step.right_of_balance`: the right over a balance.
-/

namespace Custody

theorem Reporter.mem_names_of_canWrite {r : Reporter} {name : PropertyName}
    (h : r.canWrite name = true) : name ∈ r.names := by
  rw [canWrite] at h
  cases hplace : bisect (fun n => compare n name) r.names with
  | missing i =>
    rw [hplace] at h
    exact nomatch h
  | found i =>
    obtain ⟨n, hn, heq⟩ := eq_of_bisect_found hplace
    exact Std.LawfulEqCmp.eq_of_compare heq ▸ hn

/-- A property is written by the owner, or by a reporter with its name. -/
theorem Asset.right_of_permits_write {a : Asset} {principal : AccountId} {name : PropertyName}
    (h : a.permits principal (.write name) = true) :
    a.owner = principal ∨ ∃ r ∈ a.reporters, r.account = principal ∧ name ∈ r.names := by
  rcases Bool.or_eq_true_iff.mp h with howner | hreporter
  · exact Or.inl (isOwnedBy_iff.mp howner)
  · cases hr : a.reporter? principal with
    | none =>
      rw [hr] at hreporter
      exact nomatch hreporter
    | some r =>
      rw [hr] at hreporter
      have haccount : r.account = principal := by simpa using List.find?_some hr
      exact Or.inr ⟨r, List.mem_of_find?_eq_some hr, haccount, r.mem_names_of_canWrite hreporter⟩

theorem Balances.single_of_ne {owner o : AccountId} (h : owner ≠ o) (root : AssetId)
    (amount : Nat) (r : AssetId) : single owner root amount o r = 0 := if_neg fun heq => h heq.1

namespace Records

variable {σ σ' : Records} {sender : AccountId} {now : UInt64} {message : Message}

/-! ### Offers -/

/-- **An offer is made, replaced and narrowed by the owner of its asset.** -/
theorem Step.owner_of_offered (h : σ.Step sender now message σ') (hσ : σ.WellFormed) {id : AssetId}
    {recipient : AccountId} {o : Offer} (ho : σ'.offer? id recipient = some o)
    (hset : σ.offer? id recipient ≠ some o ∨ message.Offers id recipient) :
    ∃ a, σ.asset? id = some a ∧ a.owner = sender := by
  have hchange := h.offers hσ id recipient
  rw [ho] at hchange
  generalize hx : some o = x at hchange
  cases hchange with
  | keep hoffers hanswers hwithdraws =>
    rcases hset with hne | hmade
    · exact absurd hx.symm hne
    · exact absurd hmade hoffers
  | offer =>
    cases h with
    | offer ha hmutable howner hother hnames => exact ⟨_, ha, howner⟩
  | narrow hp =>
    cases h with
    | withdraw ha hmutable howner hp hrole hsome hleft => exact ⟨_, ha, howner⟩
    | narrow ha hmutable howner hp hrole hsome hleft => exact ⟨_, ha, howner⟩
  | remove => exact nomatch hx

theorem eq_of_offer?_drop {id i : AssetId} {recipient r : AccountId} {o : Offer}
    (ho : σ.offer? id recipient = some o) (hnone : (σ.drop i r).offer? id recipient = none) :
    id = i ∧ recipient = r := by
  rw [offer?_drop] at hnone
  split at hnone
  · assumption
  · exact nomatch ho.symm.trans hnone

theorem offer?_hold_ne_none {id : AssetId} {recipient : AccountId} {o : Offer} (p : Offer)
    (ho : σ.offer? id recipient = some o) : (σ.hold p).offer? id recipient ≠ none := by
  rw [offer?_hold]
  split
  · exact nofun
  · rw [ho]
    exact nofun

/-- **An offer is removed by its recipient, its issuer or the owner of its asset.** -/
theorem Step.right_of_removed (h : σ.Step sender now message σ') (hσ : σ.WellFormed) {id : AssetId}
    {recipient : AccountId} {o : Offer} (ho : σ.offer? id recipient = some o)
    (hnone : σ'.offer? id recipient = none) :
    sender = recipient ∨ sender = o.issuer ∨ ∃ a, σ.asset? id = some a ∧ a.owner = sender := by
  cases h with
  | issue hfree
  | split hfree hp hmutable howner hle
  | add ha hmutable howner hamount
  | subtract ha hmutable howner hamount hle
  | write ha hmutable hsome hpermits
  | appoint ha hmutable howner hother hsome
  | dismiss ha hmutable howner hr => exact nomatch ho.symm.trans hnone
  | compose ha hmutable howner hsome hpositive htakes =>
    rw [offer?_put, offer?_foldl_consume] at hnone
    exact nomatch ho.symm.trans hnone
  | @freeze i a ha hmutable howner =>
    by_cases hid : id = i
    · subst hid
      exact Or.inr (Or.inr ⟨a, ha, howner⟩)
    · rw [offer?_dropAll, if_neg hid] at hnone
      exact nomatch ho.symm.trans hnone
  | offer ha hmutable howner hother hnames => exact absurd hnone (offer?_hold_ne_none _ ho)
  | @decline i r response a p ha hmutable hp hresponse hsender =>
    obtain ⟨rfl, rfl⟩ := eq_of_offer?_drop ho hnone
    obtain rfl := Option.some.inj (ho.symm.trans hp)
    obtain ⟨-, hrecipient⟩ := hσ.offer_eq ho
    cases response with
    | accept => exact absurd rfl hresponse
    | reject => exact Or.inl ((beq_iff_eq.mp hsender).symm.trans hrecipient)
    | cancel => exact Or.inr (Or.inl (beq_iff_eq.mp hsender).symm)
  | accept ha hmutable hp howner =>
    obtain ⟨-, rfl⟩ := eq_of_offer?_drop ho hnone
    exact Or.inl rfl
  | withdraw ha hmutable howner hp hrole hsome hleft =>
    obtain ⟨rfl, rfl⟩ := eq_of_offer?_drop ho hnone
    exact Or.inr (Or.inr ⟨_, ha, howner⟩)
  | narrow ha hmutable howner hp hrole hsome hleft =>
    exact absurd hnone (offer?_hold_ne_none _ ho)

/-- Granting a role changes the owner of an asset, or its reporters, and nothing else. -/
theorem granted_eq (a : Asset) (recipient : AccountId) (o : Offer) (now : UInt64) :
    ∃ owner reporters,
      granted a recipient o now = { a with owner := owner, reporters := reporters } ∧
        (owner ≠ a.owner → owner = recipient ∧ o.role = .owner) := by
  rw [granted]
  cases o.role with
  | owner => exact ⟨recipient, [], rfl, fun _ => ⟨rfl, rfl⟩⟩
  | reporter => exact ⟨a.owner, _, rfl, fun hne => absurd rfl hne⟩

/-! ### Balances -/

/-- A new asset of another owner counts for no balance of an account. -/
theorem balance_put_fresh_of_ne {a : Asset} {o : AccountId} (hfree : σ.asset? a.id = none)
    (hne : a.owner ≠ o) (r : AssetId) : (σ.put a).balance o r = σ.balance o r := by
  rw [σ.balance_put_of_none hfree, Balances.single_of_ne hne, Nat.add_zero]

/-- An asset that is and stays with other owners counts for no balance of an account. -/
theorem balance_put_of_ne {a p : Asset} {o : AccountId} (hp : σ.asset? a.id = some p)
    (hbefore : p.owner ≠ o) (hafter : a.owner ≠ o) (r : AssetId) :
    (σ.put a).balance o r = σ.balance o r := by
  have hput := σ.balance_put_of_some hp o r
  rwa [Balances.single_of_ne hbefore, Balances.single_of_ne hafter] at hput

theorem balance_foldl_consume_of_ne {o : AccountId} {taken : List (Asset × Nat)}
    (h : σ.Consumable taken) (hne : ∀ t ∈ taken, t.1.owner ≠ o) (r : AssetId) :
    (taken.foldl consume σ).balance o r = σ.balance o r := by
  have hzero : (taken.map fun t => Balances.single t.1.owner t.1.root t.2 o r).sum = 0 := by
    refine List.sum_eq_zero ?_
    intro n hn
    obtain ⟨t, ht, rfl⟩ := List.mem_map.mp hn
    exact Balances.single_of_ne (hne t ht) _ _ _
  have hconsume := balance_foldl_consume h o r
  rwa [hzero] at hconsume

/-- The sender accepts the owner role on an asset, offered by the account that it belongs to. -/
structure HandsOver (σ : Records) (sender : AccountId) (message : Message) (a : Asset)
    (o : Offer) : Prop where
  accepts : message = .answerOffer a.id sender .accept
  stored : σ.asset? a.id = some a
  offered : σ.offer? a.id sender = some o
  role : o.role = .owner
  issuer : o.issuer = a.owner

/-- **A balance is changed by its account, or as the account hands over an asset.** -/
theorem Step.right_of_balance (h : σ.Step sender now message σ') (hσ : σ.WellFormed)
    {owner : AccountId} {root : AssetId} (hne : σ'.balance owner root ≠ σ.balance owner root) :
    sender = owner ∨ ∃ a o, σ.HandsOver sender message a o ∧ a.owner = owner ∧ a.root = root := by
  refine Decidable.or_iff_not_imp_left.mpr fun hother => ?_
  cases h with
  | @issue i name quantity unit properties hfree =>
    have hput := balance_put_fresh_of_ne (a := freshAsset i name quantity unit properties sender)
      hfree hother root
    exact absurd hput hne
  | @split i name quantity unit parent properties p hfree hp hmutable howner hle =>
    obtain rfl := hσ.id_eq hp
    have hleft := balance_put_of_ne (a := leftOf (p, quantity)) hp (howner ▸ hother)
      (howner ▸ hother) root
    have hfresh : (σ.put (leftOf (p, quantity))).asset? i = none := by
      rw [asset?_put, if_neg ?_]
      · exact hfree
      · rintro rfl
        exact nomatch hfree.symm.trans hp
    have hput := balance_put_fresh_of_ne (σ := σ.put (leftOf (p, quantity)))
      (a := splitFrom p.id p.root (freshAsset i name quantity unit properties sender))
      hfresh hother root
    exact absurd (hput.trans hleft) hne
  | @add i amount a ha hmutable howner hamount =>
    obtain rfl := hσ.id_eq ha
    have hput := balance_put_of_ne (a := { a with quantity := a.quantity + amount }) ha
      (howner ▸ hother) (howner ▸ hother) root
    exact absurd hput hne
  | @subtract i amount a ha hmutable howner hamount hle =>
    obtain rfl := hσ.id_eq ha
    have hput := balance_put_of_ne (a := leftOf (a, amount)) ha (howner ▸ hother)
      (howner ▸ hother) root
    exact absurd hput hne
  | @compose i materials a taken ha hmutable howner hsome hpositive htakes =>
    obtain rfl := hσ.id_eq ha
    have hconsume := balance_foldl_consume_of_ne htakes.consumable
      (fun t ht => (htakes.takable t ht).owner ▸ hother) root
    have hput := balance_put_of_eq (σ := taken.foldl consume σ) (p := a)
      (a := { a with materials := Material.merge a.materials (Material.normalize materials) })
      (htakes.asset?_consumer.trans ha) rfl rfl rfl owner root
    exact absurd (hput.trans hconsume) hne
  | @write i batch a ha hmutable hsome hpermits =>
    obtain rfl := hσ.id_eq ha
    have hput := balance_put_of_eq
      (a := { a with properties := Property.upsert a.properties batch }) ha rfl rfl rfl owner root
    exact absurd hput hne
  | @freeze i a ha hmutable howner =>
    obtain rfl := hσ.id_eq ha
    have hput := balance_put_of_eq (a := { a with isFinal := true }) ha rfl rfl rfl owner root
    exact absurd hput hne
  | offer ha hmutable howner hoffered hnames => exact absurd rfl hne
  | decline ha hmutable ho hresponse hsender => exact absurd rfl hne
  | @accept i a o ha hmutable ho howner =>
    obtain rfl := hσ.id_eq ha
    change (σ.put (granted a sender o now)).balance owner root ≠ _ at hne
    rw [granted] at hne
    cases hrole : o.role with
    | reporter =>
      simp only [hrole] at hne
      have hput := balance_put_of_eq (a := a.upsertReporter (Reporter.grant sender o.names now))
        ha rfl rfl rfl owner root
      exact absurd hput hne
    | owner =>
      simp only [hrole] at hne
      have hput := σ.balance_put_of_some (a := { a with owner := sender, reporters := [] })
        ha owner root
      rw [Balances.single_of_ne hother, Balances.single] at hput
      split at hput
      · next heq => exact ⟨a, o, ⟨rfl, ha, ho, hrole, howner.symm⟩, heq⟩
      · exact absurd hput hne
  | withdraw ha hmutable howner ho hrole hsome hleft => exact absurd rfl hne
  | narrow ha hmutable howner ho hrole hsome hleft => exact absurd rfl hne
  | @appoint i reporter names a ha hmutable howner hreporter hsome =>
    obtain rfl := hσ.id_eq ha
    have hput := balance_put_of_eq (a := a.upsertReporter (Reporter.grant reporter names now))
      ha rfl rfl rfl owner root
    exact absurd hput hne
  | @dismiss i reporter a r ha hmutable howner hr =>
    obtain rfl := hσ.id_eq ha
    have hput := balance_put_of_eq (a := a.removeReporter reporter) ha rfl rfl rfl owner root
    exact absurd hput hne

end Records

end Custody
