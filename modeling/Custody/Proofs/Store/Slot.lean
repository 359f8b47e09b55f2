import Mathlib.Data.List.Basic
import Custody.Store.Key

/-!
# The layout of the store

A **slot** is a place in the store: the record of an asset, a property, an offer or a balance, or
an entry of an index.  Its key is made of the namespace and the identifiers that name it; if these
are **clean**, that is, free of the separator, the key determines the slot.

* `Slot.key_inj`: a key of a clean slot is the key of no other slot, clean or not.
* `Slot.stem_isPrefix_key`, `Slot.scope_isPrefix_key`: which keys a scan of a namespace or of a
  scope comes upon.
* `Key.holding?_pair`: the parts of a key are read back.
* `Key.compare_pair`, `Key.compare_single`: keys are in the order of their last parts.
-/

namespace Custody

open Std

/-! ### Clean identifiers -/

/-- An identifier that can be a part of a key: its bytes hold no separator. -/
def Ident.Clean {kind : IdentKind} (i : Ident kind) : Prop := Key.separator ∉ i.bytes

instance {kind : IdentKind} (i : Ident kind) : Decidable i.Clean :=
  inferInstanceAs (Decidable (Key.separator ∉ i.bytes))

theorem Ident.bytes_inj {kind : IdentKind} {i j : Ident kind} : i.bytes = j.bytes ↔ i = j := by
  refine ⟨?_, fun h => h ▸ rfl⟩
  intro h
  cases i; cases j
  exact congrArg Ident.mk (Utf8.ofString_inj h)

namespace Key

/-! ### Stems -/

theorem eq_of_stem_isPrefix {ns ns' : Namespace} (h : ns.stem <+: ns'.stem) : ns = ns' := by
  revert h
  cases ns <;> cases ns' <;> decide +kernel

/-- No stem begins another one, so the stem of a key can be told. -/
theorem stem_append_inj {ns ns' : Namespace} {a b : Bytes} (h : ns.stem ++ a = ns'.stem ++ b) :
    ns = ns' ∧ a = b := by
  have hns : ns = ns' := by
    rcases List.prefix_or_prefix_of_prefix (h ▸ List.prefix_append ns.stem a)
      (List.prefix_append ns'.stem b) with hp | hp
    · exact eq_of_stem_isPrefix hp
    · exact (eq_of_stem_isPrefix hp).symm
  subst hns
  exact ⟨rfl, List.append_cancel_left h⟩

theorem stem_isPrefix_iff {ns ns' : Namespace} {a : Bytes} :
    ns.stem <+: ns'.stem ++ a ↔ ns = ns' := by
  constructor
  · rintro ⟨b, hb⟩
    exact (stem_append_inj hb).1
  · rintro rfl
    exact List.prefix_append _ _

/-! ### Parts -/

/-- A scope holds the keys of its namespace with its first part, of those with clean parts. -/
theorem scope_isPrefix_pair {ns ns' : Namespace} {first a b : Bytes} (ha : separator ∉ a)
    (hb : separator ∉ b) : scope ns first <+: pair ns' a b ↔ ns = ns' ∧ first = a := by
  constructor
  · rintro ⟨rest, hrest⟩
    simp only [scope, pair, List.append_assoc, List.singleton_append] at hrest
    obtain ⟨hns, hparts⟩ := stem_append_inj hrest
    exact ⟨hns, ((List.append_cons_inj_of_notMem ha hb).mp hparts.symm).1.symm⟩
  · rintro ⟨rfl, rfl⟩
    exact ⟨b, by simp [scope, pair]⟩

theorem not_scope_isPrefix_single {ns ns' : Namespace} {first a : Bytes} (ha : separator ∉ a) :
    ¬ scope ns first <+: single ns' a := by
  rintro ⟨rest, hrest⟩
  simp only [scope, single, List.append_assoc, List.singleton_append] at hrest
  exact ha ((stem_append_inj hrest).2 ▸ by simp)

/-! ### The order of keys -/

theorem compare_append_left (p a b : Bytes) : compare (p ++ a) (p ++ b) = compare a b := by
  induction p with
  | nil => rfl
  | cons x p ih => rw [List.cons_append, List.cons_append, List.compare_cons_cons, ih]; simp

theorem compare_single (ns : Namespace) (a b : Bytes) :
    compare (single ns a) (single ns b) = compare a b := compare_append_left _ a b

theorem compare_pair (ns : Namespace) (first a b : Bytes) :
    compare (pair ns first a) (pair ns first b) = compare a b := by
  rw [pair, pair, compare_append_left, List.compare_cons_cons]
  simp

/-! ### Reading keys -/

theorem segments_of_notMem {a : Bytes} (h : separator ∉ a) : segments a = [a] := by
  induction a with
  | nil => rfl
  | cons x a ih =>
    rw [List.mem_cons, not_or] at h
    obtain ⟨hx, ha⟩ := h
    rw [segments, if_neg (Ne.symm hx), ih ha]

theorem segments_append {a : Bytes} (h : separator ∉ a) (b : Bytes) :
    segments (a ++ separator :: b) = a :: segments b := by
  induction a with
  | nil => rw [List.nil_append, segments, if_pos rfl]
  | cons x a ih =>
    rw [List.mem_cons, not_or] at h
    obtain ⟨hx, ha⟩ := h
    rw [List.cons_append, segments, if_neg (Ne.symm hx), ih ha]

theorem strip?_append (p a : Bytes) : strip? p (p ++ a) = some a := by
  induction p with
  | nil => rfl
  | cons x p ih => rw [List.cons_append, strip?, if_pos rfl, ih]

theorem split?_pair {k l : IdentKind} (ns : Namespace) {i : Ident k} {j : Ident l} (hi : i.Clean)
    (hj : j.Clean) : split? ns (pair ns i.bytes j.bytes) = some [i.text, j.text] := by
  rw [split?, pair, List.append_assoc, strip?_append, Option.bind_some, segments_append hi,
    segments_of_notMem hj]
  simp [Ident.bytes, Utf8.toString?_ofString]

theorem holding?_pair (ns : Namespace) {i : AccountId} {j : AssetId} (hi : i.Clean)
    (hj : j.Clean) : holding? ns (pair ns i.bytes j.bytes) = some ⟨i, j⟩ := by
  rw [holding?, split?_pair ns hi hj]

end Key

/-! ### Slots -/

/-- A place in the store. -/
inductive Slot where
  | asset (id : AssetId)
  | property (id : AssetId) (name : PropertyName)
  | offer (id : AssetId) (recipient : AccountId)
  | balance (owner : AccountId) (root : AssetId)
  /-- The entry of an asset under its owner. -/
  | owner (account : AccountId) (id : AssetId)
  /-- The entry of an asset under a reporter. -/
  | reporter (account : AccountId) (id : AssetId)
  /-- The entry of an offer under its recipient. -/
  | recipient (account : AccountId) (id : AssetId)
  deriving DecidableEq

namespace Slot

/-- The key of a slot. -/
def key : Slot → Bytes
  | asset id => Key.asset id
  | property id name => Key.property id name
  | offer id account => Key.offer id account
  | balance account root => Key.balance account root
  | owner account id => Key.owner account id
  | reporter account id => Key.reporter account id
  | recipient account id => Key.recipient account id

/-- The namespace of a slot. -/
def space : Slot → Namespace
  | asset _ => .asset
  | property .. => .property
  | offer .. => .offer
  | balance .. => .inventory
  | owner .. => .ownerIndex
  | reporter .. => .reporterIndex
  | recipient .. => .recipientIndex

/-- A slot whose identifiers are free of the separator. -/
def Clean : Slot → Prop
  | asset id => id.Clean
  | property id name => id.Clean ∧ name.Clean
  | offer id account => id.Clean ∧ account.Clean
  | balance account root => account.Clean ∧ root.Clean
  | owner account id | reporter account id | recipient account id => account.Clean ∧ id.Clean

/-- The parts of a key after its namespace: the second one, if there is one, follows a separator. -/
def parts : Slot → Bytes
  | asset id => id.bytes
  | property id name => id.bytes ++ Key.separator :: name.bytes
  | offer id account => id.bytes ++ Key.separator :: account.bytes
  | balance account root => account.bytes ++ Key.separator :: root.bytes
  | owner account id | reporter account id | recipient account id =>
    account.bytes ++ Key.separator :: id.bytes

theorem key_eq (x : Slot) : x.key = x.space.stem ++ x.parts := by
  cases x <;>
    simp [key, space, parts, Key.asset, Key.property, Key.offer, Key.balance, Key.owner,
      Key.reporter, Key.recipient, Key.single, Key.pair]

theorem stem_isPrefix_key {ns : Namespace} {x : Slot} : ns.stem <+: x.key ↔ x.space = ns := by
  rw [key_eq, Key.stem_isPrefix_iff, eq_comm]

/-- **The key of a clean slot is the key of no other slot.** -/
theorem key_inj {x y : Slot} (hx : x.Clean) : x.key = y.key ↔ x = y := by
  refine ⟨?_, fun h => h ▸ rfl⟩
  intro h
  have hspace : x.space = y.space := by
    rw [← stem_isPrefix_key, h, stem_isPrefix_key]
  rw [key_eq, key_eq] at h
  have hparts := (Key.stem_append_inj h).2
  cases x <;> cases y <;> simp only [space, reduceCtorEq] at hspace
  case asset.asset => exact congrArg asset (Ident.bytes_inj.mp hparts)
  all_goals
    obtain ⟨hfirst, -, hsecond⟩ := (List.append_cons_inj_of_notMem hx.1 hx.2).mp hparts
    rw [Ident.bytes_inj.mp hfirst, Ident.bytes_inj.mp hsecond]

/-- The first of two parts of a key. -/
def head? : Slot → Option Bytes
  | asset _ => none
  | property id _ | offer id _ => some id.bytes
  | balance account _ | owner account _ | reporter account _ | recipient account _ =>
    some account.bytes

theorem scope_isPrefix_key {ns : Namespace} {first : Bytes} {x : Slot} (hx : x.Clean) :
    Key.scope ns first <+: x.key ↔ x.space = ns ∧ x.head? = some first := by
  cases x
  case asset id =>
    exact iff_of_false (Key.not_scope_isPrefix_single hx) (by simp [head?])
  all_goals
    refine (Key.scope_isPrefix_pair hx.1 hx.2).trans ?_
    simp only [space, head?, Option.some.injEq, eq_comm]

end Slot

end Custody
