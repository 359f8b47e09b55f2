import Custody.Proofs.Store.Parts

/-!
# Keys stand for their arguments

A key is made from a namespace and one or two texts.  As long as the texts are free of the
separator, nothing is lost: the key determines the namespace and the texts, the keys under a first
text are those that begin with its scope, keys of one namespace are in the order of their texts,
one text after the other, and splitting gives the texts back.  This holds whatever else the texts
look like: one may begin another one, hold slashes, or read like the rest of a namespace.

* `Slot.texts`: the texts that a key is made of.
* `Key.compare_joined`: joined parts compare one after the other, as the separator is below all that
  a part can hold.
* `Slot.compare_key`, `Slot.split?_key`: the order of keys, and their parts read back.
* `Slot.keys_faithful`: **keys stand for their arguments.**
-/

namespace Custody

open Std

namespace Key

theorem separator_lt {b : UInt8} (h : separator ≠ b) : compare separator b = .lt := by
  have hne : b.toNat ≠ 0 := fun hzero => h (UInt8.toNat_inj.mp hzero.symm)
  exact Std.compare_eq_lt.mpr (UInt8.lt_iff_toNat_lt.mpr (Nat.pos_of_ne_zero hne))

/-- **Joined parts compare one after the other.**  Where one of the first parts ends, the separator
meets a byte of the other, which is greater. -/
theorem compare_joined {a a' : Bytes} (ha : separator ∉ a) (ha' : separator ∉ a') (b b' : Bytes) :
    compare (a ++ separator :: b) (a' ++ separator :: b') = (compare a a').then (compare b b') := by
  induction a generalizing a' with
  | nil =>
    cases a' with
    | nil => rw [List.nil_append, List.nil_append, List.compare_cons_cons, ReflOrd.compare_self]; rfl
    | cons y a' =>
      have hlt := separator_lt (List.ne_of_not_mem_cons ha')
      rw [List.nil_append, List.cons_append, List.compare_cons_cons, hlt, List.compare_nil_cons]
      rfl
  | cons x a ih =>
    cases a' with
    | nil =>
      have hgt := OrientedCmp.gt_of_lt (separator_lt (List.ne_of_not_mem_cons ha))
      rw [List.nil_append, List.cons_append, List.compare_cons_cons, hgt, List.compare_cons_nil]
      rfl
    | cons y a' =>
      rw [List.cons_append, List.cons_append, List.compare_cons_cons, List.compare_cons_cons,
        ih (List.not_mem_of_not_mem_cons ha) (List.not_mem_of_not_mem_cons ha'),
        Ordering.then_assoc]

theorem split?_single {kind : IdentKind} (ns : Namespace) {i : Ident kind} (hi : i.Clean) :
    split? ns (single ns i.bytes) = some [i.text] := by
  rw [split?, single, strip?_append, Option.bind_some, segments_of_notMem hi]
  simp [Ident.bytes, Utf8.toString?_ofString]

/-- A key of one namespace has no parts in another one. -/
theorem split?_of_ne {ns ns' : Namespace} (h : ns ≠ ns') (a : Bytes) :
    split? ns (ns'.stem ++ a) = none := by
  cases hstrip : strip? ns.stem (ns'.stem ++ a) with
  | none => rw [split?, hstrip, Option.bind_none]
  | some rest => exact absurd (stem_append_inj (strip?_eq_some hstrip)).1.symm h

end Key

namespace Slot

/-- The texts that the key of a slot is made of. -/
def texts : Slot → List String
  | asset id => [id.text]
  | property id name => [id.text, name.text]
  | offer id account => [id.text, account.text]
  | balance account root => [account.text, root.text]
  | owner account id | reporter account id | recipient account id => [account.text, id.text]

theorem head?_eq_some {x : Slot} {first : String} :
    x.head? = some (Utf8.ofString first) ↔ ∃ second, x.texts = [first, second] := by
  have hfirst : ∀ {kind : IdentKind} (i : Ident kind),
      i.bytes = Utf8.ofString first ↔ i.text = first :=
    fun i => ⟨Utf8.ofString_inj, congrArg Utf8.ofString⟩
  cases x <;> simp [head?, texts, hfirst]

variable {x y : Slot}

/-- **Keys of one namespace are in the order of their texts, one text after the other.** -/
theorem compare_key (hx : x.Clean) (hy : y.Clean) (hspace : y.space = x.space) :
    compare x.key y.key =
      compare (x.texts.map Utf8.ofString) (y.texts.map Utf8.ofString) := by
  have hsingle : ∀ a b : Bytes, compare [a] [b] = compare a b := fun a b => by
    rw [List.compare_cons_cons, List.compare_nil_nil, Ordering.then_eq]
  have hpair : ∀ a a' b b' : Bytes, compare [a, b] [a', b'] = (compare a a').then (compare b b') :=
    fun a a' b b' => by rw [List.compare_cons_cons, hsingle]
  rw [key_eq, key_eq, hspace, Key.compare_append_left]
  cases x <;> cases y <;> simp only [space, reduceCtorEq] at hspace
  case asset.asset => exact (hsingle _ _).symm
  all_goals exact (Key.compare_joined hx.1 hy.1 _ _).trans (hpair _ _ _ _).symm

theorem split?_key (hx : x.Clean) (ns : Namespace) :
    Key.split? ns x.key = if ns = x.space then some x.texts else none := by
  by_cases hns : ns = x.space
  · subst hns
    rw [if_pos rfl]
    cases x
    case asset id => exact Key.split?_single .asset hx
    all_goals exact Key.split?_pair _ hx.1 hx.2
  · rw [if_neg hns, key_eq, Key.split?_of_ne hns]

/-- **Keys stand for their arguments.**  The key of a clean slot is the key of no other slot; it
begins with the scope of a first text just if that is the namespace and the first of its two texts;
compared with the key of another clean slot of its namespace, it stands as their texts do, one text
after the other, each in the order of bytes; and it is split into its texts in its own namespace,
and not at all in any other. -/
theorem keys_faithful (hx : x.Clean) :
    (∀ y : Slot, y.key = x.key ↔ y = x) ∧
    (∀ ns first, Key.scope ns (Utf8.ofString first) <+: x.key ↔
      ns = x.space ∧ ∃ second, x.texts = [first, second]) ∧
    (∀ y : Slot, y.Clean → y.space = x.space →
      compare x.key y.key =
        compare (x.texts.map Utf8.ofString) (y.texts.map Utf8.ofString)) ∧
    ∀ ns, Key.split? ns x.key = if ns = x.space then some x.texts else none := by
  refine ⟨fun y => ?_, fun ns first => ?_, fun y hy => compare_key hx hy, split?_key hx⟩
  · rw [eq_comm, key_inj hx, eq_comm]
  · rw [scope_isPrefix_key hx, head?_eq_some, eq_comm]

/-- An asset whose name reads like the rest of another namespace, and one whose name begins it. -/
theorem keys_faithful_of_lookalike :
    (offer ⟨"_recipient/al"⟩ ⟨"bo"⟩).Clean ∧ (offer ⟨"_recipient/a"⟩ ⟨"zoe"⟩).Clean ∧
    (recipient ⟨"al"⟩ ⟨"bo"⟩).key ≠ (offer ⟨"_recipient/al"⟩ ⟨"bo"⟩).key ∧
    ¬ Key.scope .offer (Utf8.ofString "_recipient/a") <+: (offer ⟨"_recipient/al"⟩ ⟨"bo"⟩).key ∧
    compare (offer ⟨"_recipient/al"⟩ ⟨"bo"⟩).key (offer ⟨"_recipient/a"⟩ ⟨"zoe"⟩).key = .gt ∧
    Key.split? .offer (offer ⟨"_recipient/al"⟩ ⟨"bo"⟩).key = some ["_recipient/al", "bo"] ∧
    Key.split? .recipientIndex (offer ⟨"_recipient/al"⟩ ⟨"bo"⟩).key = none := by
  have hclean : (offer ⟨"_recipient/al"⟩ ⟨"bo"⟩).Clean := ⟨by decide, by decide⟩
  have hother : (offer ⟨"_recipient/a"⟩ ⟨"zoe"⟩).Clean := ⟨by decide, by decide⟩
  obtain ⟨hinj, hscope, horder, hsplit⟩ := keys_faithful hclean
  refine ⟨hclean, hother, ?_, ?_, ?_, hsplit .offer, hsplit .recipientIndex⟩
  · exact fun h => absurd ((hinj _).mp h) (by decide)
  · intro h
    obtain ⟨-, second, htexts⟩ := (hscope _ _).mp h
    exact absurd (List.cons.inj htexts).1 (by decide)
  · exact (horder _ hother rfl).trans (by decide +kernel)

end Slot

end Custody
