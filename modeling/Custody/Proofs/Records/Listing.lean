import Custody.Proofs.Records.Auditing

/-!
# What the listings answer

On a map of bytes that pictures records, the entries of an index under an account, and the balances
of an account, are listed in order; each entry leads to its record.  So every listing is answered,
for whatever account it is asked.

* `Mirrors.property?`, `Mirrors.reporters`: parts of an asset.
* `Mirrors.listed`: the identifiers that an index lists.
* `Mirrors.assetsOwnedBy`, `Mirrors.assetsReportedBy`: the assets of an account.
* `Mirrors.toRecipient`: the offers to an account.
* `Pictured.balances`: the balances of an account.
-/

namespace Custody

theorem IndexKind.head?_slot (index : IndexKind) (entry : Holding) :
    (index.slot entry).head? = some entry.account.bytes := by
  cases index <;> rfl

theorem IndexKind.compare_key (index : IndexKind) (account : AccountId) (i j : AssetId) :
    compare (index.key ⟨account, i⟩) (index.key ⟨account, j⟩) = compare i j := by
  cases index <;> exact Key.compare_pair _ _ _ _

namespace Records

/-- The assets that an account owns, in order of identifiers. -/
def ownedBy (σ : Records) (owner : AccountId) : List Asset :=
  σ.allAssets.filter fun a => a.owner == owner

/-- The assets that an account is a reporter of, in order of identifiers. -/
def reportedBy (σ : Records) (reporter : AccountId) : List Asset :=
  σ.allAssets.filter fun a => (Registry.reporterAccounts a).contains reporter

/-- The offers to a recipient, in order of assets. -/
def offersTo (σ : Records) (recipient : AccountId) : List Offer :=
  (σ.offers.bindings.filter fun b => b.1.account == recipient).map (·.2)

/-- The roots under which an account has a balance, in order. -/
def roots (σ : Records) (owner : AccountId) : List AssetId :=
  (SortedMap.ofKeys (σ.allAssets.map Asset.root)).keys.filter fun root => σ.balance owner root != 0

theorem contains_reporterAccounts (a : Asset) (reporter : AccountId) :
    (Registry.reporterAccounts a).contains reporter =
      decide (∃ r ∈ a.reporters, r.account = reporter) := by
  rw [Bool.eq_iff_iff, List.contains_iff_mem, decide_eq_true_iff, Registry.reporterAccounts,
    List.mem_map]

variable {σ : Records} {β : Balances} {m : Contents}

theorem mem_offersTo {recipient : AccountId} {o : Offer} :
    o ∈ σ.offersTo recipient ↔ ∃ id, σ.offer? id recipient = some o := by
  simp only [offersTo, List.mem_map, List.mem_filter, Prod.exists, SortedMap.mem_bindings,
    beq_iff_eq, offer?]
  constructor
  · rintro ⟨⟨account, asset⟩, o, ⟨hget, rfl⟩, rfl⟩
    exact ⟨asset, hget⟩
  · rintro ⟨id, hget⟩
    exact ⟨⟨recipient, id⟩, o, ⟨hget, rfl⟩, rfl⟩

theorem WellFormed.offersTo_ascending (h : σ.WellFormed) (recipient : AccountId) :
    AscendingBy Offer.asset (σ.offersTo recipient) := by
  have hasset : ∀ b ∈ σ.offers.bindings.filter fun b => b.1.account == recipient,
      b.1.account = recipient ∧ b.2.asset = b.1.asset := by
    intro b hb
    obtain ⟨hmem, haccount⟩ := List.mem_filter.mp hb
    exact ⟨by simpa using haccount, (h.offer_eq ((SortedMap.mem_bindings _ _ _).mp hmem)).1⟩
  refine List.pairwise_map.mpr ((σ.offers.ascending.filter _).imp_of_mem fun {b c} hb hc hbc => ?_)
  obtain ⟨hb, hb'⟩ := hasset b hb
  obtain ⟨hc, hc'⟩ := hasset c hc
  change (compare b.1.account c.1.account).then (compare b.1.asset c.1.asset) = .lt at hbc
  rwa [hb, hc, Std.ReflOrd.compare_self, ← hb', ← hc'] at hbc

theorem mem_roots {owner : AccountId} {root : AssetId} :
    root ∈ σ.roots owner ↔ σ.balance owner root ≠ 0 := by
  rw [roots, List.mem_filter, SortedMap.mem_keys_ofKeys, bne_iff_ne]
  refine and_iff_right_of_imp fun hne => ?_
  rw [balance, ← sum_allAssets] at hne
  refine Decidable.byContradiction fun hroot => hne (List.sum_eq_zero ?_)
  intro n hn
  obtain ⟨a, ha, rfl⟩ := List.mem_map.mp hn
  exact if_neg fun heq => hroot (List.mem_map.mpr ⟨a, ha, heq.2⟩)

namespace Mirrors

/-! ### Parts of an asset -/

theorem property? (h : σ.Mirrors β m) (id : AssetId) (name : PropertyName) :
    Registry.property? id name m.view = .ok ((σ.asset? id).bind fun a => a.property? name) := by
  refine Query.load?_eq (by decide) ((h.shows.get? (.property id name)).trans ?_)
  rw [sheet, Option.map_bind]
  rfl

theorem reporters (h : σ.Mirrors β m) (id : AssetId) :
    Registry.reporters id m.view = (σ.get id).map Asset.reporters := by
  rw [Registry.reporters, Query.bind_view, h.get]
  cases σ.get id with
  | error e => rfl
  | ok a => rfl

/-! ### Indices -/

/-- The entries of an index under an account. -/
theorem scan_index (h : σ.Mirrors β m) (index : IndexKind) {account : AccountId}
    {ids : List AssetId} (hasc : ids.Pairwise fun i j => compare i j = .lt)
    (hids : ∀ id, id ∈ ids ↔ σ.Asks index ⟨account, id⟩) :
    m.view.scan (Key.scope index.space account.bytes) =
      ids.map fun id => (index.key ⟨account, id⟩, []) := by
  refine h.shows.scan_eq ?_ fun k v => ⟨?_, ?_⟩
  · rw [List.pairwise_map]
    exact hasc.imp fun hij => (index.compare_key account _ _).trans hij
  · intro hkv
    obtain ⟨id, hid, heq⟩ := List.mem_map.mp hkv
    obtain ⟨rfl, rfl⟩ := Prod.mk.inj heq
    have hx : σ.sheet β (index.slot ⟨account, id⟩) = some [] :=
      sheet_slot.mpr ⟨rfl, (hids id).mp hid⟩
    refine ⟨index.slot ⟨account, id⟩, index.key_slot _, ?_, hx⟩
    rw [← index.key_slot, Slot.scope_isPrefix_key (h.shows.clean hx)]
    exact ⟨index.space_slot _, index.head?_slot _⟩
  · rintro ⟨x, rfl, hscope, hx⟩
    obtain ⟨hspace, hhead⟩ := (Slot.scope_isPrefix_key (h.shows.clean hx)).mp hscope
    obtain ⟨⟨account', id⟩, rfl⟩ := IndexKind.exists_slot hspace
    rw [index.head?_slot] at hhead
    obtain rfl : account' = account := Ident.bytes_inj.mp (Option.some.inj hhead)
    obtain ⟨rfl, hasks⟩ := sheet_slot.mp hx
    exact List.mem_map.mpr ⟨id, (hids id).mpr hasks, by rw [index.key_slot]⟩

/-- **An index lists under an account the assets that the records ask for there.** -/
theorem members (h : σ.Mirrors β m) (index : IndexKind) {account : AccountId}
    {ids : List AssetId} (hasc : ids.Pairwise fun i j => compare i j = .lt)
    (hids : ∀ id, id ∈ ids ↔ σ.Asks index ⟨account, id⟩) :
    Registry.members index.space (Key.scope index.space account.bytes) m.view = .ok ids := by
  have hmember : ∀ id ∈ ids,
      Registry.memberOf index.space (index.key ⟨account, id⟩) = .ok id := by
    intro id hid
    rw [Registry.memberOf, h.holding?_key ((hids id).mp hid)]
  change (m.view.scan (Key.scope index.space account.bytes)).mapM
    (fun entry => (liftM (Registry.memberOf index.space entry.1) : Query AssetId)) m.view = _
  rw [Query.mapM_view, h.scan_index index hasc hids, List.mapM_map]
  exact (mapM_eq_ok hmember).trans (congrArg Except.ok (List.map_id ids))

/-- The assets that an index lists under an account, where it lists those of a kind. -/
theorem listed (h : σ.Mirrors β m) (index : IndexKind) {account : AccountId} {p : Asset → Bool}
    (hasks : ∀ id, σ.Asks index ⟨account, id⟩ ↔ ∃ a, σ.asset? id = some a ∧ p a = true) :
    Registry.members index.space (Key.scope index.space account.bytes) m.view =
      .ok ((σ.allAssets.filter p).map Asset.id) := by
  refine h.members index ?_ fun id => (Iff.trans ⟨?_, ?_⟩ (hasks id).symm)
  · exact List.pairwise_map.mpr ((allAssets_ascending h.wellFormed).filter _)
  · intro hid
    obtain ⟨a, ha, rfl⟩ := List.mem_map.mp hid
    obtain ⟨hmem, hp⟩ := List.mem_filter.mp ha
    exact ⟨a, (mem_allAssets h.wellFormed).mp hmem, hp⟩
  · rintro ⟨a, ha, hp⟩
    have hmem := (mem_allAssets h.wellFormed).mpr (h.wellFormed.asset?_id ha)
    exact List.mem_map.mpr ⟨a, List.mem_filter.mpr ⟨hmem, hp⟩, h.wellFormed.id_eq ha⟩

theorem ownedBy (h : σ.Mirrors β m) (owner : AccountId) :
    Registry.ownedBy owner m.view = .ok ((σ.ownedBy owner).map Asset.id) :=
  h.listed .owner fun id => by simp only [Asks, beq_iff_eq]

theorem reportedBy (h : σ.Mirrors β m) (reporter : AccountId) :
    Registry.reportedBy reporter m.view = .ok ((σ.reportedBy reporter).map Asset.id) :=
  h.listed .reporter fun id => by simp only [Asks, List.contains_iff_mem]

/-- The assets with the identifiers of some assets are those assets. -/
theorem mapM_get (h : σ.Mirrors β m) {l : List Asset} (hl : ∀ a ∈ l, a ∈ σ.allAssets) :
    (l.map Asset.id).mapM Registry.get m.view = .ok l := by
  have hget : ∀ a ∈ l, Registry.get a.id m.view = .ok a := fun a ha =>
    (h.get a.id).trans (get_eq_ok.mpr ((mem_allAssets h.wellFormed).mp (hl a ha)))
  rw [Query.mapM_view, List.mapM_map]
  exact (mapM_eq_ok hget).trans (congrArg Except.ok (List.map_id _))

/-- **The assets of an owner are listed.** -/
theorem assetsOwnedBy (h : σ.Mirrors β m) (owner : AccountId) :
    Registry.assetsOwnedBy owner m.view = .ok (σ.ownedBy owner) := by
  rw [Registry.assetsOwnedBy, Query.bind_view, h.ownedBy]
  exact h.mapM_get fun a ha => List.mem_of_mem_filter ha

/-- **The assets of a reporter are listed.** -/
theorem assetsReportedBy (h : σ.Mirrors β m) (reporter : AccountId) :
    Registry.assetsReportedBy reporter m.view = .ok (σ.reportedBy reporter) := by
  rw [Registry.assetsReportedBy, Query.bind_view, h.reportedBy]
  exact h.mapM_get fun a ha => List.mem_of_mem_filter ha

/-- **The offers to a recipient are listed.** -/
theorem toRecipient (h : σ.Mirrors β m) (recipient : AccountId) :
    OfferBook.toRecipient recipient m.view = .ok (σ.offersTo recipient) := by
  have hmembers : Registry.members .recipientIndex (Key.offeredTo recipient) m.view =
      .ok ((σ.offersTo recipient).map Offer.asset) := by
    refine h.members .recipient ?_ fun id => ⟨?_, ?_⟩
    · exact List.pairwise_map.mpr (h.wellFormed.offersTo_ascending recipient)
    · intro hid
      obtain ⟨o, ho, rfl⟩ := List.mem_map.mp hid
      obtain ⟨id, ho⟩ := mem_offersTo.mp ho
      obtain ⟨rfl, -⟩ := h.wellFormed.offer_eq ho
      exact ⟨o, ho⟩
    · rintro ⟨o, ho⟩
      exact List.mem_map.mpr ⟨o, mem_offersTo.mpr ⟨id, ho⟩, (h.wellFormed.offer_eq ho).1⟩
  have hindexed : ∀ o ∈ σ.offersTo recipient,
      OfferBook.indexed recipient o.asset m.view = .ok o := by
    intro o ho
    obtain ⟨id, ho⟩ := mem_offersTo.mp ho
    obtain ⟨rfl, -⟩ := h.wellFormed.offer_eq ho
    rw [OfferBook.indexed, Query.bind_view, h.offer?, ho]
    rfl
  rw [OfferBook.toRecipient, Query.bind_view, hmembers]
  change ((σ.offersTo recipient).map Offer.asset).mapM (OfferBook.indexed recipient) m.view = _
  rw [Query.mapM_view, List.mapM_map]
  exact (mapM_eq_ok hindexed).trans (congrArg Except.ok (List.map_id _))

end Mirrors

/-! ### Balances -/

theorem Pictured.clean_of_mem_roots (h : σ.Pictured m) {owner : AccountId} {root : AssetId}
    (hroot : root ∈ σ.roots owner) : (Slot.balance owner root).Clean :=
  h.shows.clean (if_neg (mem_roots.mp hroot))

/-- The entries of the balances of an account. -/
theorem Pictured.scan_balances (h : σ.Pictured m) (owner : AccountId) :
    m.view.scan (Key.balances owner) = (σ.roots owner).map fun root =>
      (Key.balance owner root, encode (Balance.mk (σ.balance owner root))) := by
  refine h.shows.scan_eq ?_ fun k v => ⟨?_, ?_⟩
  · have hasc : (SortedMap.ofKeys (σ.allAssets.map Asset.root)).keys.Pairwise
        fun i j => compare i j = .lt := List.pairwise_map.mpr (SortedMap.ofKeys _).ascending
    rw [List.pairwise_map]
    exact (hasc.filter _).imp fun hij => (Key.compare_pair _ _ _ _).trans hij
  · intro hkv
    obtain ⟨root, hroot, heq⟩ := List.mem_map.mp hkv
    obtain ⟨rfl, rfl⟩ := Prod.mk.inj heq
    have hscope := (Slot.scope_isPrefix_key (h.clean_of_mem_roots hroot)).mpr ⟨rfl, rfl⟩
    exact ⟨.balance owner root, rfl, hscope, if_neg (mem_roots.mp hroot)⟩
  · rintro ⟨x, rfl, hscope, hx⟩
    obtain ⟨hspace, hhead⟩ := (Slot.scope_isPrefix_key (h.shows.clean hx)).mp hscope
    cases x with
    | balance owner' root =>
      obtain rfl : owner' = owner := Ident.bytes_inj.mp (Option.some.inj hhead)
      obtain ⟨hne, hv⟩ := Option.ite_none_left_eq_some.mp hx
      exact List.mem_map.mpr ⟨root, mem_roots.mpr hne, by rw [← Option.some.inj hv]; rfl⟩
    | _ => exact absurd hspace (by simp [Slot.space])

/-- **The balances of an account are listed.** -/
theorem Pictured.balances (h : σ.Pictured m) (owner : AccountId) :
    Inventory.balances owner m.view =
      .ok ((σ.roots owner).map fun root => (root, σ.balance owner root)) := by
  have hentry : ∀ root ∈ σ.roots owner,
      Inventory.entryOf (Key.balance owner root, encode (Balance.mk (σ.balance owner root))) =
        .ok (⟨owner, root⟩, σ.balance owner root) :=
    fun root hroot => Mirrors.entryOf_balance (h.clean_of_mem_roots hroot) _
  have hentries : (m.view.scan (Key.balances owner)).mapM
      (fun entry => (liftM (Inventory.entryOf entry) : Query (Holding × Nat))) m.view =
        .ok ((σ.roots owner).map fun root => (⟨owner, root⟩, σ.balance owner root)) := by
    rw [Query.mapM_view, h.scan_balances, List.mapM_map]
    exact mapM_eq_ok hentry
  rw [Inventory.balances, Query.bind_view]
  change ((m.view.scan (Key.balances owner)).mapM
    (fun entry => (liftM (Inventory.entryOf entry) : Query (Holding × Nat))) >>= _) m.view = _
  rw [Query.bind_view, hentries]
  refine congrArg Except.ok ?_
  rw [List.map_map]
  rfl

end Records

end Custody
