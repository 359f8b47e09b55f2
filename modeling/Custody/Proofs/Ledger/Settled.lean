import Custody.Proofs.Ledger.Parallel

/-!
# Settled contents

Contents are **settled** if they resemble the picture of sound records.  Audits read them as they
read the picture, and what one side does the other does, so that envelopes keep them settled.

* `Audit.indexIssues_parallel`: an audit of the indices finds the same on both sides.
* `Contents.Counts.agrees`, `Contents.Resembles.counts`: contents agree on their balances just as
  they count the same.
* `Contents.Settled`, `Settled.dispatch`, `Settled.run`: **envelopes keep contents settled.**
* `Contents.Filed`, `Settled.filed`: every record of settled contents lies under its own key.
* `Settled.indexIssues`, `Settled.inventoryIssues`: **audits of settled contents find nothing.**
-/

namespace Custody

/-! ### Audits of the indices -/

namespace Registry

theorem complete_of_decode? {m : Contents} {k v : Bytes} {a : Asset} (hv : decode? v = some a)
    (hread : m.Readable a.id) :
    ∃ l, complete (k, v) m.view = .ok { a with properties := l } := by
  obtain ⟨l, hl⟩ := hread.properties
  refine ⟨l, ?_⟩
  rw [complete, Query.bind_view, Query.verdict_view, Query.read_of_decode? hv]
  change (properties a.id m.view >>= fun l => pure { a with properties := l }) = _
  rw [hl]
  rfl

/-- **Assets are listed alike.** -/
theorem all_parallel : all.Parallel (List.Forall₂ Asset.Like) all := by
  intro m m₀ hm
  have hrel : ∀ k, Namespace.asset.stem <+: k →
      Option.Rel (Denote fun a a₀ : Asset => a.Like a₀ ∧ m.Readable a.id ∧ m₀.Readable a.id)
        (m.get? k) (m₀.get? k) := by
    intro k hk
    have hagrees := hm.agrees .asset k hk
    have hread : ∀ id, k = Key.asset id → m.get? k ≠ none → m.Readable id := by
      rintro id rfl hget
      exact hm.orderly id hget
    have hread₀ : ∀ id, k = Key.asset id → m₀.get? k ≠ none → m₀.Readable id := by
      rintro id rfl hget
      exact hm.orderly₀ id hget
    generalize m.get? k = w, m₀.get? k = w₀ at hagrees hread hread₀ ⊢
    cases hagrees with
    | none => exact .none
    | some h =>
      obtain ⟨a, a₀, ha, ha₀, hlike, hkey⟩ := h
      exact .some ⟨a, a₀, ha, ha₀, hlike, hread _ hkey nofun, hread₀ _ hkey nofun⟩
  change Verdict.Parallel _ ((m.view.scan Namespace.asset.stem).mapM complete m.view)
    ((m₀.view.scan Namespace.asset.stem).mapM complete m₀.view)
  rw [Query.mapM_view, Query.mapM_view]
  refine Verdict.Parallel.mapM (Contents.scan_forall₂ hrel) ?_
  rintro ⟨k, v⟩ ⟨k₀, v₀⟩ ⟨-, a, a₀, ha, ha₀, ⟨l', rfl⟩, hread, hread₀⟩
  obtain ⟨l, hl⟩ := complete_of_decode? ha hread
  obtain ⟨l₀, hl₀⟩ := complete_of_decode? ha₀ hread₀
  rw [hl, hl₀]
  exact .ok ⟨l₀, rfl⟩

end Registry

namespace Audit

theorem allOffers_parallel : allOffers.Parallel Eq allOffers := by
  intro m m₀ hm
  have hload := Query.loadAll_parallel (α := Offer) (R := Eq)
    fun k (hk : Namespace.offer.stem <+: k) => hm.agrees .offer k hk
  rwa [List.forall₂_eq_eq_eq] at hload

theorem indexKeys_parallel (index : IndexKind) :
    (indexKeys index).Parallel Eq (indexKeys index) := by
  intro m m₀ hm
  refine .ok (Contents.keys_scan_eq fun k hk => ?_)
  have hagrees : m.get? k = none ↔ m₀.get? k = none := by
    have hagrees := hm.agrees index.space k hk
    cases index <;> exact hagrees
  rw [← Option.ne_none_iff_exists', ← Option.ne_none_iff_exists', Ne, Ne, hagrees]

theorem expectedEntries_eq {assets assets₀ : List Asset}
    (h : List.Forall₂ Asset.Like assets assets₀) (offers : List Offer) (index : IndexKind) :
    expectedEntries assets offers index = expectedEntries assets₀ offers index := by
  cases index with
  | owner =>
    have howners : (assets.map fun a => Holding.mk a.owner a.id) =
        assets₀.map fun a => Holding.mk a.owner a.id :=
      map_eq_of_forall₂ h fun a _ ⟨_, hlike⟩ => by rw [hlike]
    rw [expectedEntries, expectedEntries, howners]
  | reporter =>
    have hreporters : (assets.map fun a => a.reporters.map fun r => Holding.mk r.account a.id) =
        assets₀.map fun a => a.reporters.map fun r => Holding.mk r.account a.id :=
      map_eq_of_forall₂ h fun a _ ⟨_, hlike⟩ => by rw [hlike]
    rw [expectedEntries, expectedEntries, List.flatMap_def, List.flatMap_def, hreporters]
  | recipient => rfl

/-- **An audit of the indices finds the same on both sides.** -/
theorem indexIssues_parallel : indexIssues.Parallel Eq indexIssues := by
  refine .bind Registry.all_parallel fun assets assets₀ h => .bind allOffers_parallel ?_
  rintro offers _ rfl
  have hissues : ∀ index, Query.Parallel Eq
      (indexKeys index >>= fun keys =>
        pure (issuesOf index (expectedEntries assets offers index) keys))
      (indexKeys index >>= fun keys =>
        pure (issuesOf index (expectedEntries assets₀ offers index) keys)) := by
    intro index
    rw [expectedEntries_eq h]
    refine .bind (indexKeys_parallel index) ?_
    rintro keys _ rfl
    exact .pure rfl
  refine .bind (.mapM hissues) fun issues issues₀ h => ?_
  rw [List.forall₂_eq_eq_eq] at h
  rw [h]
  exact .pure rfl

theorem expectedBalances_eq {assets assets₀ : List Asset}
    (h : List.Forall₂ Asset.Like assets assets₀) :
    expectedBalances assets = expectedBalances assets₀ := by
  refine List.rel_foldl (P := Eq) (R := Asset.Like) ?_ rfl h
  rintro sums _ rfl a _ ⟨l, rfl⟩
  rfl

end Audit

/-- Whether a value may lie under a key: the record of an asset under the key of the asset, with a
root that can be part of a key, and the record of an offer under the key of the offer. -/
structure Key.Files (k v : Bytes) : Prop where
  asset : Namespace.asset.stem <+: k → ∀ a : Asset, decode? v = some a →
    k = Key.asset a.id ∧ a.root.Clean
  offer : Namespace.offer.stem <+: k → ∀ o : Offer, decode? v = some o →
    k = Key.offer o.asset o.recipient

/-- A check of the key can be run: at most one asset and one offer are read from a value. -/
instance (k v : Bytes) : Decidable (Key.Files k v) :=
  decidable_of_iff
    ((Namespace.asset.stem <+: k → ∀ a ∈ (decode? v : Option Asset),
      k = Key.asset a.id ∧ Key.separator ∉ a.root.bytes) ∧
    (Namespace.offer.stem <+: k → ∀ o ∈ (decode? v : Option Offer),
      k = Key.offer o.asset o.recipient))
    ⟨fun h => ⟨h.1, h.2⟩, fun h => ⟨h.asset, h.offer⟩⟩

namespace Contents

/-! ### Balances -/

variable {m m₀ : Contents} {β : Balances}

theorem Counts.amountOf?_eq (h : m.Counts β) (owner : AccountId) (root : AssetId) :
    Balance.amountOf? (m.get? (Key.balance owner root)) = some (β owner root) := by
  cases hget : m.get? (Key.balance owner root) with
  | none =>
    by_contra hne
    obtain ⟨v, hv⟩ := h.holds owner root fun hzero => hne (congrArg some hzero.symm)
    exact nomatch hget.symm.trans hv
  | some v =>
    obtain ⟨entry, hholding, hdecode⟩ := h.reads _ v (Key.stem_isPrefix_pair _ _ _) hget
    obtain rfl := Key.eq_of_holding?_pair hholding
    rw [Balance.amountOf?, hdecode]
    rfl

/-- Contents with the same balances agree on them. -/
theorem Counts.agrees (h : m.Counts β) (h₀ : m₀.Counts β) {k : Bytes}
    (hk : Namespace.inventory.stem <+: k) :
    Namespace.inventory.Agrees k (m.get? k) (m₀.get? k) := by
  have hread : ∀ entry, Key.holding? .inventory k = some entry →
      Namespace.inventory.Agrees k (m.get? k) (m₀.get? k) := by
    intro entry hholding
    obtain ⟨hkey, -⟩ := Key.holding?_eq_some.mp hholding
    have hamount := h.amountOf?_eq entry.account entry.asset
    have hamount₀ := h₀.amountOf?_eq entry.account entry.asset
    rw [Key.balance, ← hkey] at hamount hamount₀
    exact ⟨⟨_, hamount, hamount₀⟩, Or.inr (Or.inr ⟨entry, hholding⟩)⟩
  cases hget : m.get? k with
  | some v =>
    obtain ⟨entry, hholding, -⟩ := h.reads k v hk hget
    exact hget ▸ hread entry hholding
  | none =>
    cases hget₀ : m₀.get? k with
    | some v₀ =>
      obtain ⟨entry, hholding, -⟩ := h₀.reads k v₀ hk hget₀
      exact hget ▸ hget₀ ▸ hread entry hholding
    | none => exact ⟨⟨0, rfl, rfl⟩, Or.inl rfl⟩

/-- What resembles contents with given balances has the same. -/
theorem Resembles.counts (hm : m.Resembles m₀) (h₀ : m₀.Counts β) : m.Counts β where
  reads k v hk hget := by
    obtain ⟨⟨n, hn, hn₀⟩, hkey⟩ := hm.agrees .inventory k hk
    rw [hget] at hn hkey
    obtain ⟨⟨amount⟩, hdecode, rfl⟩ := Option.map_eq_some_iff.mp hn
    have hholding : ∃ entry, Key.holding? .inventory k = some entry := by
      rcases hkey.resolve_left nofun with hget₀ | hholding
      · obtain ⟨v₀, hv₀⟩ := Option.ne_none_iff_exists'.mp hget₀
        obtain ⟨entry, hholding, -⟩ := h₀.reads k v₀ hk hv₀
        exact ⟨entry, hholding⟩
      · exact hholding
    obtain ⟨entry, hholding⟩ := hholding
    obtain ⟨rfl, -⟩ := Key.holding?_eq_some.mp hholding
    obtain rfl := Option.some.inj (hn₀.symm.trans (h₀.amountOf?_eq entry.account entry.asset))
    exact ⟨entry, hholding, hdecode⟩
  holds owner root hne := by
    obtain ⟨⟨n, hn, hn₀⟩, -⟩ :=
      hm.agrees .inventory (Key.balance owner root) (Key.stem_isPrefix_pair _ _ _)
    obtain rfl := Option.some.inj (hn₀.symm.trans (h₀.amountOf?_eq owner root))
    refine Option.ne_none_iff_exists'.mp fun hnone => ?_
    rw [hnone] at hn
    exact hne (Option.some.inj hn).symm

/-! ### Settled contents -/

/-- Contents that resemble the picture of sound records. -/
def Settled (m : Contents) : Prop :=
  ∃ (σ : Records) (m₀ : Contents), σ.Pictured m₀ ∧ m.Resembles m₀

/-- Contents in which every record lies under its own key. -/
def Filed (m : Contents) : Prop := ∀ k v, m.get? k = some v → Key.Files k v

namespace Settled

theorem key_of_asset (h : m.Settled) {k v : Bytes} {a : Asset} (hget : m.get? k = some v)
    (hk : Namespace.asset.stem <+: k) (ha : decode? v = some a) :
    k = Key.asset a.id ∧ a.root.Clean := by
  obtain ⟨σ, m₀, hσ, hm⟩ := h
  have hagrees := hm.agrees .asset k hk
  rw [hget] at hagrees
  generalize hget₀ : m₀.get? k = w₀ at hagrees
  cases hagrees with
  | some hagrees =>
    obtain ⟨b, b₀, hb, hb₀, ⟨l, rfl⟩, rfl⟩ := hagrees
    obtain rfl := Option.some.inj (ha.symm.trans hb)
    obtain ⟨c, hc, rfl⟩ :=
      Option.map_eq_some_iff.mp ((hσ.shows.get? (.asset a.id)).symm.trans hget₀)
    have hrecord := Option.some.inj ((decode?_encode (by decide) c.record).symm.trans hb₀)
    have hclean := hσ.sound.root hc
    change c.record.root.Clean at hclean
    rw [hrecord] at hclean
    exact ⟨rfl, hclean⟩

theorem key_of_offer (h : m.Settled) {k v : Bytes} {o : Offer} (hget : m.get? k = some v)
    (hk : Namespace.offer.stem <+: k) (ho : decode? v = some o) :
    k = Key.offer o.asset o.recipient := by
  obtain ⟨σ, m₀, hσ, hm⟩ := h
  have hagrees := hm.agrees .offer k hk
  rw [hget] at hagrees
  generalize hget₀ : m₀.get? k = w₀ at hagrees
  cases hagrees with
  | some hagrees =>
    obtain ⟨b, _, hb, hb₀, rfl⟩ := hagrees
    obtain rfl := Option.some.inj (ho.symm.trans hb)
    obtain ⟨c, hc, heq⟩ := hσ.mirrors.mem_scan_offers.mp (mem_scan.mpr ⟨hk, hget₀⟩)
    obtain ⟨rfl, rfl⟩ := Prod.mk.inj heq
    obtain rfl := Option.some.inj ((decode?_encode (by decide) c).symm.trans hb₀)
    rfl

/-- **Every record of settled contents lies under its own key.** -/
theorem filed (h : m.Settled) : m.Filed := fun _ _ hget =>
  ⟨fun hk _ ha => h.key_of_asset hget hk ha, fun hk _ ho => h.key_of_offer hget hk ho⟩

/-- **An audit of the indices of settled contents finds nothing.** -/
theorem indexIssues (h : m.Settled) : Audit.indexIssues m.view = .ok [] := by
  obtain ⟨σ, m₀, hσ, hm⟩ := h
  have hparallel := Audit.indexIssues_parallel m m₀ hm
  rw [hσ.mirrors.indexIssues] at hparallel
  generalize Audit.indexIssues m.view = x at hparallel
  cases hparallel with
  | ok h => rw [h]

/-- **An audit of the inventory of settled contents finds nothing.** -/
theorem inventoryIssues (h : m.Settled) : Audit.inventoryIssues m.view = .ok [] := by
  obtain ⟨σ, m₀, hσ, hm⟩ := h
  have hparallel := Registry.all_parallel m m₀ hm
  rw [hσ.mirrors.all] at hparallel
  generalize hall : Registry.all m.view = x at hparallel
  cases hparallel with
  | ok hlike =>
    refine (Audit.inventoryIssues_eq_nil_iff hall).mpr ?_
    rw [Audit.expectedBalances_eq hlike]
    exact hm.counts ((Audit.inventoryIssues_eq_nil_iff hσ.mirrors.all).mp hσ.inventoryIssues)

/-- **An envelope keeps contents settled.** -/
theorem dispatch (h : m.Settled) (config : ModuleConfig) (e : Envelope) : ∃ verdict m',
    Ledger.dispatch config e (.ofContents m) = (verdict, .ofContents m') ∧ m'.Settled := by
  obtain ⟨σ, m₀, hσ, hm⟩ := h
  obtain ⟨verdict, verdict₀, m', m₀', hdispatch, hdispatch₀, -, hm'⟩ :=
    Ledger.dispatch_parallel config e hm
  obtain ⟨m₁, hpicture, hσ'⟩ := Ledger.dispatch_pictured config e hσ
  obtain rfl : m₀' = m₁ :=
    congrArg (fun p => p.2.base) (hdispatch₀.symm.trans hpicture)
  exact ⟨verdict, m', hdispatch, _, m₀', hσ', hm'⟩

/-- **A run keeps contents settled.** -/
theorem run (h : m.Settled) (config : ModuleConfig) (es : List Envelope) :
    ∃ m', Ledger.run config es (.ofContents m) = .ofContents m' ∧ m'.Settled := by
  induction es generalizing m with
  | nil => exact ⟨m, rfl, h⟩
  | cons e rest ih =>
    obtain ⟨verdict, m', hdispatch, hm'⟩ := h.dispatch config e
    obtain ⟨m'', hrun, hm''⟩ := ih hm'
    refine ⟨m'', ?_, hm''⟩
    rw [← hrun]
    change Ledger.run config rest (Ledger.dispatch config e (.ofContents m)).2 = _
    rw [hdispatch]

end Settled

end Contents

end Custody
