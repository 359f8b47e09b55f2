import Mathlib.Data.List.Forall2
import Mathlib.Data.List.Sort
import Custody.Proofs.Records.Resembling

/-!
# Runs side by side

Two transactions are **parallel** if, run on contents that resemble each other, both are refused, or
both are done, with results in a given relation and contents that resemble each other again.  The
writings of assets, balances and offers are parallel to themselves: whatever they read, they read
alike on both sides, and what they write agrees.

* `Verdict.Parallel`, `Query.Parallel`, `Txn.Parallel`: the relation, with a lemma for each way to
  put readings and transactions together.
* `Registry.get_parallel`, `Inventory.balance_parallel`, `OfferBook.get_parallel`: readings.
* `Registry.put_parallel`, `Inventory.credit_parallel`, `OfferBook.store_parallel`: writings.
-/

namespace Custody

variable {α β γ δ : Type}

/-! ### Verdicts -/

/-- Both are refused, or both are given with answers in a relation. -/
inductive Verdict.Parallel (R : α → β → Prop) : Verdict α → Verdict β → Prop
  | ok {a : α} {b : β} (h : R a b) : Parallel R (.ok a) (.ok b)
  | error (e e₀ : Fault) : Parallel R (.error e) (.error e₀)

namespace Verdict.Parallel

variable {R : α → β → Prop} {S : γ → δ → Prop}

theorem same (x : Verdict α) : Parallel Eq x x := by
  cases x with
  | ok a => exact .ok rfl
  | error e => exact .error e e

theorem bind {x : Verdict α} {y : Verdict β} {f : α → Verdict γ} {g : β → Verdict δ}
    (h : Parallel R x y) (hf : ∀ a b, R a b → Parallel S (f a) (g b)) :
    Parallel S (x >>= f) (y >>= g) := by
  cases h with
  | ok h => exact hf _ _ h
  | error e e₀ => exact .error e e₀

theorem mapM {l : List α} {l₀ : List β} {f : α → Verdict γ} {g : β → Verdict δ}
    (hl : List.Forall₂ R l l₀) (hf : ∀ a b, R a b → Parallel S (f a) (g b)) :
    Parallel (List.Forall₂ S) (l.mapM f) (l₀.mapM g) := by
  induction hl with
  | nil => exact .ok .nil
  | cons h hl ih =>
    rw [List.mapM_cons, List.mapM_cons]
    exact (hf _ _ h).bind fun _ _ hab => ih.bind fun _ _ hrest => .ok (.cons hab hrest)

end Verdict.Parallel

/-! ### Scans -/

/-- Ascending lists of the same keys, whose values are in a relation key by key, are in that
relation entry by entry. -/
theorem forall₂_of_keys_eq {R : Bytes → Bytes → Bytes → Prop} {l l₀ : List (Bytes × Bytes)}
    (hkeys : l.map Prod.fst = l₀.map Prod.fst)
    (h : ∀ e ∈ l, ∀ e₀ ∈ l₀, e.1 = e₀.1 → R e.1 e.2 e₀.2) :
    List.Forall₂ (fun e e₀ => e.1 = e₀.1 ∧ R e.1 e.2 e₀.2) l l₀ := by
  induction l generalizing l₀ with
  | nil =>
    obtain rfl := List.map_eq_nil_iff.mp hkeys.symm
    exact .nil
  | cons e rest ih =>
    obtain ⟨e₀, rest₀, rfl, hkey, hrest⟩ := List.map_eq_cons_iff.mp hkeys.symm
    refine .cons ⟨hkey.symm, h _ List.mem_cons_self _ List.mem_cons_self hkey.symm⟩
      (ih hrest.symm ?_)
    intro b hb b₀ hb₀
    exact h b (List.mem_cons_of_mem _ hb) b₀ (List.mem_cons_of_mem _ hb₀)

theorem Contents.mem_keys_scan {m : Contents} {stem k : Bytes} :
    k ∈ (m.view.scan stem).map Prod.fst ↔ stem <+: k ∧ ∃ v, m.get? k = some v := by
  simp only [List.mem_map, Prod.exists, exists_and_right, exists_eq_right, mem_scan,
    exists_and_left]

/-- Scans find the same keys wherever they find the same keys to hold anything. -/
theorem Contents.keys_scan_eq {m m₀ : Contents} {stem : Bytes}
    (h : ∀ k, stem <+: k → ((∃ v, m.get? k = some v) ↔ ∃ v, m₀.get? k = some v)) :
    (m.view.scan stem).map Prod.fst = (m₀.view.scan stem).map Prod.fst := by
  have hirrefl : Std.Irrefl fun a b : Bytes => compare a b = .lt :=
    ⟨fun a ha => by simp at ha⟩
  have hantisymm : Std.Antisymm fun a b : Bytes => compare a b = .lt :=
    ⟨fun a b hab hba => nomatch (Std.OrientedCmp.gt_of_lt hab).symm.trans hba⟩
  have hascending : ∀ m : Contents, ((m.view.scan stem).map Prod.fst).Pairwise
      fun a b => compare a b = .lt := fun m => List.pairwise_map.mpr (m.range stem).ascending
  refine (hascending m).eq_of_mem_iff (hascending m₀) fun k => ?_
  rw [mem_keys_scan, mem_keys_scan]
  exact and_congr_right (h k)

/-- **Where two contents agree key by key, scans find entries in that relation.** -/
theorem Contents.scan_forall₂ {R : Bytes → Bytes → Bytes → Prop} {m m₀ : Contents} {stem : Bytes}
    (h : ∀ k, stem <+: k → Option.Rel (R k) (m.get? k) (m₀.get? k)) :
    List.Forall₂ (fun e e₀ => e.1 = e₀.1 ∧ R e.1 e.2 e₀.2) (m.view.scan stem)
      (m₀.view.scan stem) := by
  have hsome : ∀ k, stem <+: k → ((∃ v, m.get? k = some v) ↔ ∃ v, m₀.get? k = some v) := by
    intro k hk
    have hrel := h k hk
    generalize m.get? k = w, m₀.get? k = w₀ at hrel ⊢
    cases hrel with
    | none => simp
    | some hrel => simp
  refine forall₂_of_keys_eq (keys_scan_eq hsome) ?_
  · rintro ⟨k, v⟩ he ⟨k₀, v₀⟩ he₀ rfl
    obtain ⟨hstem, hget⟩ := mem_scan.mp he
    have hrel := h k hstem
    rw [hget, (mem_scan.mp he₀).2] at hrel
    cases hrel with
    | some hrel => exact hrel

/-! ### Queries -/

/-- On contents that resemble each other both are refused, or both are answered in a relation. -/
def Query.Parallel (R : α → β → Prop) (q : Query α) (q₀ : Query β) : Prop :=
  ∀ m m₀ : Contents, m.Resembles m₀ → Verdict.Parallel R (q m.view) (q₀ m₀.view)

namespace Query.Parallel

variable {R : α → β → Prop} {S : γ → δ → Prop}

theorem pure {a : α} {b : β} (h : R a b) : Parallel R (Pure.pure a) (Pure.pure b) :=
  fun _ _ _ => .ok h

theorem refuse (e e₀ : Fault) : Parallel R (throw e) (throw e₀) := fun _ _ _ => .error e e₀

theorem bind {q : Query α} {q₀ : Query β} {f : α → Query γ} {f₀ : β → Query δ}
    (hq : Parallel R q q₀) (hf : ∀ a b, R a b → Parallel S (f a) (f₀ b)) :
    Parallel S (q >>= f) (q₀ >>= f₀) := fun m m₀ hm =>
  (hq m m₀ hm).bind fun a b hab => hf a b hab m m₀ hm

theorem verdict {r : Verdict α} {f : α → Query γ} {f₀ : α → Query δ}
    (hf : ∀ a, Parallel S (f a) (f₀ a)) : Parallel S (liftM r >>= f) (liftM r >>= f₀) :=
  fun m m₀ hm => (Verdict.Parallel.same r).bind fun a _ hab => hab ▸ hf a m m₀ hm

theorem mapM {l : List α} {f : α → Query γ} {f₀ : α → Query δ}
    (hf : ∀ a, Parallel S (f a) (f₀ a)) :
    Parallel (List.Forall₂ S) (l.mapM f) (l.mapM f₀) := by
  intro m m₀ hm
  rw [Query.mapM_view, Query.mapM_view]
  refine Verdict.Parallel.mapM (List.forall₂_same.mpr fun a _ => (rfl : a = a)) ?_
  rintro a _ rfl
  exact hf a m m₀ hm

end Query.Parallel

/-! ### Transactions -/

/-- What two runs come to: both are refused, or both are done and leave contents that resemble each
other. -/
inductive Txn.Outcomes (R : α → β → Prop) : Verdict α × Contents → Verdict β × Contents → Prop
  | done {a : α} {b : β} {m m₀ : Contents} (h : R a b) (hm : m.Resembles m₀) :
    Outcomes R (.ok a, m) (.ok b, m₀)
  | refused (e e₀ : Fault) (m m₀ : Contents) : Outcomes R (.error e, m) (.error e₀, m₀)

/-- On contents that resemble each other both are refused, or both are done, with results in a
relation and contents that resemble each other. -/
def Txn.Parallel (R : α → β → Prop) (t : Txn α) (t₀ : Txn β) : Prop :=
  ∀ m m₀ : Contents, m.Resembles m₀ → Outcomes R (t.exec m) (t₀.exec m₀)

namespace Txn.Parallel

variable {R : α → β → Prop} {S : γ → δ → Prop}

theorem pure {a : α} {b : β} (h : R a b) : Parallel R (Pure.pure a) (Pure.pure b) :=
  fun _ _ hm => .done h hm

theorem refuse (e e₀ : Fault) : Parallel R (Txn.refuse e) (Txn.refuse e₀) :=
  fun m m₀ _ => .refused e e₀ m m₀

theorem bind {t : Txn α} {t₀ : Txn β} {f : α → Txn γ} {f₀ : β → Txn δ} (ht : Parallel R t t₀)
    (hf : ∀ a b, R a b → Parallel S (f a) (f₀ b)) : Parallel S (t >>= f) (t₀ >>= f₀) := by
  intro m m₀ hm
  have hout := ht m m₀ hm
  rw [exec_bind, exec_bind]
  generalize t.exec m = x, t₀.exec m₀ = x₀ at hout ⊢
  cases hout with
  | done h hm' => exact hf _ _ h _ _ hm'
  | refused e e₀ m' m₀' => exact .refused e e₀ m' m₀'

theorem lift {q : Query α} {q₀ : Query β} (hq : q.Parallel R q₀) :
    Parallel R (liftM q) (liftM q₀) := by
  intro m m₀ hm
  have hout := hq m m₀ hm
  rw [exec_query, exec_query]
  generalize q m.view = x, q₀ m₀.view = x₀ at hout ⊢
  cases hout with
  | ok h => exact .done h hm
  | error e e₀ => exact .refused e e₀ m m₀

theorem query {q : Query α} {q₀ : Query β} {f : α → Txn γ} {f₀ : β → Txn δ}
    (hq : q.Parallel R q₀) (hf : ∀ a b, R a b → Parallel S (f a) (f₀ b)) :
    Parallel S (liftM q >>= f) (liftM q₀ >>= f₀) := (lift hq).bind hf

theorem verdict {r : Verdict α} {f : α → Txn γ} {f₀ : α → Txn δ}
    (hf : ∀ a, Parallel S (f a) (f₀ a)) : Parallel S (liftM r >>= f) (liftM r >>= f₀) := by
  refine bind (R := Eq) (fun m m₀ hm => ?_) fun a b hab => hab ▸ hf a
  rw [exec_verdict, exec_verdict]
  cases r with
  | ok a => exact .done rfl hm
  | error e => exact .refused e e m m₀

theorem verdicts {l : List α} {r : α → Verdict Unit} {f f₀ : Unit → Txn γ}
    {T : γ → γ → Prop} (hf : Parallel T (f ()) (f₀ ())) :
    Parallel T ((l.forM fun a => (liftM (r a) : Txn Unit)) >>= f)
      ((l.forM fun a => (liftM (r a) : Txn Unit)) >>= f₀) := by
  refine bind (R := Eq) (fun m m₀ hm => ?_) fun a b _ => hf
  rw [exec_forM_verdict, exec_forM_verdict]
  cases l.forM r with
  | ok a => exact .done rfl hm
  | error e => exact .refused e e m m₀

theorem forM {l : List α} {l₀ : List β} {f : α → Txn Unit} {f₀ : β → Txn Unit}
    (hl : List.Forall₂ R l l₀) (hf : ∀ a b, R a b → Parallel Eq (f a) (f₀ b)) :
    Parallel Eq (l.forM f) (l₀.forM f₀) := by
  induction hl with
  | nil => exact pure rfl
  | cons h hl ih => exact bind (hf _ _ h) fun _ _ _ => ih

/-- The same list on both sides. -/
theorem forM_same {l : List α} {f f₀ : α → Txn Unit} (hf : ∀ a, Parallel Eq (f a) (f₀ a)) :
    Parallel Eq (l.forM f) (l.forM f₀) :=
  forM (List.forall₂_same.mpr fun a _ => (rfl : a = a)) fun a _ hab => hab ▸ hf a

/-- Writing what agrees, outside of the records of assets and of properties. -/
theorem write {ns : Namespace} {k : Bytes} {w w₀ : Option Bytes} (hk : ns.stem <+: k)
    (hasset : ns ≠ .asset) (hproperty : ns ≠ .property) (hw : ns.Agrees k w w₀) :
    Parallel Eq (Txn.write k w (Pure.pure ())) (Txn.write k w₀ (Pure.pure ())) := by
  refine fun m m₀ hm => .done rfl (hm.put hk hproperty ?_ hw)
  rintro id rfl
  exact absurd (Key.stem_isPrefix_iff.mp hk) hasset

end Txn.Parallel

/-! ### Readings -/

section Readings

variable {m m₀ : Contents} {k : Bytes} [JsonForm α] {R : α → α → Prop}

theorem Query.load?_of_none (h : m.get? k = none) :
    (load? k : Query (Option α)) m.view = .ok none := by
  have hget : get? k m.view = .ok none := congrArg Except.ok h
  rw [load?, bind_view, hget]
  rfl

theorem Query.load?_of_decode? {v : Bytes} {a : α} (h : m.get? k = some v)
    (hv : decode? v = some a) : load? k m.view = .ok (some a) := by
  have hget : get? k m.view = .ok (some v) := congrArg Except.ok h
  rw [load?, bind_view, hget]
  change (read k v >>= fun a => pure (some a)) = _
  rw [read_of_decode? hv]
  rfl

/-- Records in a relation are loaded as such. -/
theorem Query.load?_parallel (h : Option.Rel (Denote R) (m.get? k) (m₀.get? k)) :
    Verdict.Parallel (Option.Rel R) (load? k m.view) (load? k m₀.view) := by
  generalize hw : m.get? k = w, hw₀ : m₀.get? k = w₀ at h
  cases h with
  | none =>
    rw [load?_of_none hw, load?_of_none hw₀]
    exact .ok .none
  | some h =>
    obtain ⟨a, a₀, ha, ha₀, hR⟩ := h
    rw [load?_of_decode? hw ha, load?_of_decode? hw₀ ha₀]
    exact .ok (.some hR)

/-- Records in a relation are listed as such. -/
theorem Query.loadAll_parallel {stem : Bytes}
    (h : ∀ k, stem <+: k → Option.Rel (Denote R) (m.get? k) (m₀.get? k)) :
    Verdict.Parallel (List.Forall₂ R) (loadAll stem m.view) (loadAll stem m₀.view) := by
  refine Verdict.Parallel.mapM (Contents.scan_forall₂ h) ?_
  rintro e e₀ ⟨-, a, a₀, ha, ha₀, hR⟩
  rw [read_of_decode? ha, read_of_decode? ha₀]
  exact .ok hR

end Readings

theorem Contents.Readable.properties {m : Contents} {id : AssetId} (h : m.Readable id) :
    ∃ l, Registry.properties id m.view = .ok l := by
  have hread : ∀ e ∈ m.view.scan (Key.properties id), ∃ p : Property,
      Query.read e.1 e.2 = .ok p ∧ True := by
    intro e he
    obtain ⟨hscope, hget⟩ := mem_scan.mp he
    obtain ⟨p, hp⟩ := h _ _ hscope hget
    exact ⟨p, Query.read_of_decode? hp _, trivial⟩
  obtain ⟨l, hl, -⟩ := exists_mapM_ok hread
  have hload : Query.loadAll (Key.properties id) m.view = .ok l := hl
  refine ⟨Property.sortByName l, ?_⟩
  change (Query.loadAll (Key.properties id) m.view >>= fun l => pure (Property.sortByName l)) = _
  rw [hload]
  rfl

namespace Registry

theorem contains_parallel (id : AssetId) : (contains id).Parallel Eq (contains id) := by
  intro m m₀ hm
  refine .ok ?_
  have hagrees := hm.agrees .asset (Key.asset id) (List.prefix_append _ _)
  change Option.Rel _ _ _ at hagrees
  change (m.get? (Key.asset id)).isSome = (m₀.get? (Key.asset id)).isSome
  generalize m.get? (Key.asset id) = w, m₀.get? (Key.asset id) = w₀ at hagrees ⊢
  cases hagrees <;> rfl

theorem record?_parallel (id : AssetId) :
    (record? id).Parallel (Option.Rel Asset.Like) (record? id) := by
  intro m m₀ hm
  have hagrees := hm.agrees .asset (Key.asset id) (List.prefix_append _ _)
  generalize hw : m.get? (Key.asset id) = w, hw₀ : m₀.get? (Key.asset id) = w₀ at hagrees
  rw [record?]
  cases hagrees with
  | none =>
    rw [Query.load?_of_none hw, Query.load?_of_none hw₀]
    exact .ok .none
  | some h =>
    obtain ⟨a, a₀, ha, ha₀, hlike, -⟩ := h
    rw [Query.load?_of_decode? hw ha, Query.load?_of_decode? hw₀ ha₀]
    exact .ok (.some hlike)

/-- **Assets are found alike.** -/
theorem find?_parallel (id : AssetId) :
    (find? id).Parallel (Option.Rel Asset.Like) (find? id) := by
  intro m m₀ hm
  have hagrees := hm.agrees .asset (Key.asset id) (List.prefix_append _ _)
  have hread := hm.orderly id
  have hread₀ := hm.orderly₀ id
  rw [find?, Query.bind_view, Query.bind_view, record?]
  generalize hw : m.get? (Key.asset id) = w, hw₀ : m₀.get? (Key.asset id) = w₀
    at hagrees hread hread₀
  cases hagrees with
  | none =>
    rw [Query.load?_of_none hw, Query.load?_of_none hw₀]
    exact .ok .none
  | some h =>
    obtain ⟨a, a₀, ha, ha₀, hlike, -⟩ := h
    obtain ⟨l, hl⟩ := (hread (Option.some_ne_none _)).properties
    obtain ⟨l₀, hl₀⟩ := (hread₀ (Option.some_ne_none _)).properties
    rw [Query.load?_of_decode? hw ha, Query.load?_of_decode? hw₀ ha₀]
    change Verdict.Parallel _
      (properties id m.view >>= fun l => pure (some { a with properties := l }))
      (properties id m₀.view >>= fun l => pure (some { a₀ with properties := l }))
    rw [hl, hl₀]
    obtain ⟨l', rfl⟩ := hlike
    exact .ok (.some ⟨l₀, rfl⟩)

theorem get_parallel (id : AssetId) : (get id).Parallel Asset.Like (get id) := by
  refine .bind (find?_parallel id) fun o o₀ h => ?_
  cases h with
  | none => exact .refuse _ _
  | some h => exact .pure h

end Registry

namespace Inventory

theorem balance_of_amountOf? {m : Contents} {owner : AccountId} {root : AssetId} {n : Nat}
    (h : Balance.amountOf? (m.get? (Key.balance owner root)) = some n) :
    balance owner root m.view = .ok n := by
  rw [balance, Query.bind_view]
  cases hw : m.get? (Key.balance owner root) with
  | none =>
    rw [hw] at h
    rw [Query.load?_of_none hw, ← Option.some.inj h]
    rfl
  | some v =>
    rw [hw] at h
    obtain ⟨b, hb, rfl⟩ := Option.map_eq_some_iff.mp h
    rw [Query.load?_of_decode? hw hb]
    rfl

/-- **Balances are read alike.** -/
theorem balance_parallel (owner : AccountId) (root : AssetId) :
    (balance owner root).Parallel Eq (balance owner root) := by
  intro m m₀ hm
  obtain ⟨⟨n, hn, hn₀⟩, -⟩ :=
    hm.agrees .inventory (Key.balance owner root) (Key.stem_isPrefix_pair _ _ _)
  rw [balance_of_amountOf? hn, balance_of_amountOf? hn₀]
  exact .ok rfl

end Inventory

namespace OfferBook

theorem find?_parallel (id : AssetId) (recipient : AccountId) :
    (find? id recipient).Parallel Eq (find? id recipient) := by
  intro m m₀ hm
  have hagrees := hm.agrees .offer (Key.offer id recipient) (Key.stem_isPrefix_pair _ _ _)
  have hload : Verdict.Parallel (Option.Rel Eq) (find? id recipient m.view)
      (find? id recipient m₀.view) := Query.load?_parallel hagrees
  generalize find? id recipient m.view = x, find? id recipient m₀.view = x₀ at hload ⊢
  cases hload with
  | error e e₀ => exact .error e e₀
  | ok h =>
    cases h with
    | none => exact .ok rfl
    | some h => exact .ok (congrArg some h)

theorem get_parallel (id : AssetId) (recipient : AccountId) :
    (get id recipient).Parallel Eq (get id recipient) := by
  refine .bind (find?_parallel id recipient) ?_
  rintro (_ | o) _ rfl
  · exact .refuse _ _
  · exact .pure rfl

/-- **Offers are listed alike.** -/
theorem onAsset_parallel (id : AssetId) : (onAsset id).Parallel Eq (onAsset id) := by
  intro m m₀ hm
  have hload := Query.loadAll_parallel (α := Offer) (R := Eq) fun k (hk : Key.offers id <+: k) =>
    hm.agrees .offer k ((Key.stem_isPrefix_scope _ _).trans hk)
  rwa [List.forall₂_eq_eq_eq] at hload

end OfferBook

/-! ### Writings -/

open Txn

namespace Registry

variable {p p₀ : Option Asset} {a a₀ : Asset}

theorem writeOwner_parallel (hp : Option.Rel Asset.Like p p₀) (ha : a.Like a₀) :
    Txn.Parallel Eq (writeOwner p a) (writeOwner p₀ a₀) := by
  obtain ⟨l, rfl⟩ := ha
  have hset : Txn.Parallel Eq (Txn.set (Key.owner a.owner a.id) [])
      (Txn.set (Key.owner a.owner a.id) []) :=
    .write (Key.stem_isPrefix_pair .ownerIndex _ _) nofun nofun Iff.rfl
  cases hp with
  | none => exact hset
  | @some b b₀ hb =>
    obtain ⟨l', rfl⟩ := hb
    rw [writeOwner, writeOwner]
    by_cases howner : b.owner = a.owner
    · rw [if_pos howner]
      exact .pure rfl
    · rw [if_neg howner]
      exact .bind (.write (Key.stem_isPrefix_pair .ownerIndex _ _) nofun nofun Iff.rfl)
        fun _ _ _ => hset

theorem writeReporters_parallel (hp : Option.Rel Asset.Like p p₀) (ha : a.Like a₀) :
    Txn.Parallel Eq (writeReporters p a) (writeReporters p₀ a₀) := by
  obtain ⟨l, rfl⟩ := ha
  have hbefore : p₀.map reporterAccounts = p.map reporterAccounts := by
    cases hp with
    | none => rfl
    | some hb =>
      obtain ⟨l', rfl⟩ := hb
      rfl
  rw [writeReporters, writeReporters, hbefore]
  refine .bind (.forM_same fun r => ?_) fun _ _ _ => .forM_same fun r => ?_
  · exact .write (Key.stem_isPrefix_pair .reporterIndex _ _) nofun nofun Iff.rfl
  · exact .write (Key.stem_isPrefix_pair .reporterIndex _ _) nofun nofun Iff.rfl

/-- An asset whose properties were just written can be stored. -/
theorem file_parallel (ha : a.Like a₀) :
    Txn.Parallel Eq
      (writeProperties a >>= fun _ => Txn.save (Key.asset a.id) { a with properties := [] })
      (writeProperties a₀ >>= fun _ =>
        Txn.save (Key.asset a₀.id) { a₀ with properties := [] }) := by
  obtain ⟨l, rfl⟩ := ha
  intro m m₀ hm
  have hwritten := Contents.rewrites_withProperties a m
  have hwritten₀ := Contents.rewrites_withProperties { a with properties := l } m₀
  rw [exec_bind_of_ok (Contents.exec_writeProperties_eq _ m),
    exec_bind_of_ok (Contents.exec_writeProperties_eq _ m₀)]
  refine .done rfl ((hm.rewrites hwritten hwritten₀).put (List.prefix_append Namespace.asset.stem _)
    nofun ?_ (.some ?_))
  · intro id hid
    obtain rfl := Key.asset_inj.mp hid
    exact ⟨hwritten.readable, hwritten₀.readable⟩
  · have hdecode : decode? (encode a.record) = some a.record := decode?_encode (by decide) _
    exact ⟨a.record, a.record, hdecode, hdecode, .refl _, rfl⟩

/-- **Storing an asset is parallel to storing one like it.** -/
theorem write_parallel (hp : Option.Rel Asset.Like p p₀) (ha : a.Like a₀) :
    Txn.Parallel Eq (write p a) (write p₀ a₀) :=
  .bind (writeOwner_parallel hp ha) fun _ _ _ => .bind (writeReporters_parallel hp ha)
    fun _ _ _ => file_parallel ha

theorem put_parallel (ha : a.Like a₀) : Txn.Parallel Eq (put a) (put a₀) := by
  obtain ⟨l, rfl⟩ := ha
  exact .query (record?_parallel a.id) fun _ _ hp => write_parallel hp ⟨l, rfl⟩

theorem create_parallel (a : Asset) : Txn.Parallel Eq (create a) (create a) := by
  refine .query (contains_parallel a.id) ?_
  rintro (_ | _) _ rfl
  · exact write_parallel .none (.refl a)
  · exact .refuse _ _

end Registry

namespace Inventory

theorem write_parallel (owner : AccountId) (root : AssetId) (amount : Nat) :
    Txn.Parallel Eq (write owner root amount) (write owner root amount) := by
  rw [write]
  have hkey := Key.stem_isPrefix_pair .inventory owner.bytes root.bytes
  split
  · exact .write hkey nofun nofun ⟨⟨0, rfl, rfl⟩, Or.inl rfl⟩
  · have hdecode : decode? (encode (Balance.mk amount)) = some (Balance.mk amount) :=
      decode?_encode (by decide) _
    have hamount : Balance.amountOf? (some (encode (Balance.mk amount))) = some amount := by
      rw [Balance.amountOf?, hdecode]
      rfl
    exact .write hkey nofun nofun ⟨⟨amount, hamount, hamount⟩, Or.inr (Or.inl nofun)⟩

theorem credit_parallel (owner : AccountId) (root : AssetId) (amount : Nat) :
    Txn.Parallel Eq (credit owner root amount) (credit owner root amount) := by
  refine .query (balance_parallel owner root) ?_
  rintro available _ rfl
  exact .bind (write_parallel owner root _) fun _ _ _ => .pure rfl

theorem debit_parallel (owner : AccountId) (root : AssetId) (amount : Nat) :
    Txn.Parallel Eq (debit owner root amount) (debit owner root amount) := by
  refine .query (balance_parallel owner root) ?_
  rintro available _ rfl
  exact .verdict fun _ => .bind (write_parallel owner root _) fun _ _ _ => .pure rfl

theorem move_parallel (giver taker : AccountId) (root : AssetId) (amount : Nat) :
    Txn.Parallel Eq (move giver taker root amount) (move giver taker root amount) := by
  rw [move]
  split
  · exact .pure rfl
  · exact .bind (debit_parallel giver root amount) fun _ _ _ =>
      .bind (credit_parallel taker root amount) fun _ _ _ => .pure rfl

end Inventory

namespace OfferBook

theorem store_parallel (o : Offer) : Txn.Parallel Eq (store o) (store o) := by
  have hdecode : decode? (encode o) = some o := decode?_encode (by decide) o
  have hwrite := Txn.Parallel.write (Key.stem_isPrefix_pair .offer o.asset.bytes o.recipient.bytes)
    nofun nofun (.some ⟨o, o, hdecode, hdecode, rfl⟩)
  exact .bind hwrite fun _ _ _ =>
    .write (Key.stem_isPrefix_pair .recipientIndex _ _) nofun nofun Iff.rfl

theorem remove_parallel (id : AssetId) (recipient : AccountId) :
    Txn.Parallel Eq (remove id recipient) (remove id recipient) := by
  have hdelete := Txn.Parallel.write (Key.stem_isPrefix_pair .offer id.bytes recipient.bytes)
    nofun nofun .none
  exact .bind hdelete fun _ _ _ =>
    .write (Key.stem_isPrefix_pair .recipientIndex _ _) nofun nofun Iff.rfl

theorem discard_parallel (id : AssetId) : Txn.Parallel Eq (discard id) (discard id) := by
  refine .query (onAsset_parallel id) ?_
  rintro pending _ rfl
  exact .bind (.forM_same fun o => remove_parallel id o.recipient) fun _ _ _ => .pure rfl

end OfferBook

end Custody
