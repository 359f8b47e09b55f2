import Mathlib.Data.Nat.Digits.Defs
import Custody.Text.Decimal

/-!
# Numerals and their numbers

A **numeral** is a run of one or more ASCII digits.  Its number is the sum of its digits, each times
the power of ten that belongs to its place.  Zeros in front do not change the number, so a number has
many numerals; just one of them is **canonical**, without a needless zero, and that one is written.

* `Decimal.read?_eq_some_iff`: **reading accepts the numerals, each as its number.**
* `Decimal.canonical_iff`: **what is written is the canonical numeral of the number.**
* `Decimal.write_inj`: two numbers with one numeral are equal.
-/

namespace Custody.Decimal

/-- The number that a digit stands for on its own. -/
def digitValue (c : Char) : Nat := c.toNat - '0'.toNat

/-- The number of a numeral, by the places of its digits. -/
def value (ds : List Char) : Nat := Nat.ofDigits 10 (ds.reverse.map digitValue)

/-- One or more ASCII digits. -/
structure Numeral (ds : List Char) : Prop where
  ne_nil : ds ≠ []
  isDigit : ∀ c ∈ ds, c.isDigit = true

/-- A numeral that begins with a zero only if it is nothing but that zero. -/
structure Canonical (ds : List Char) : Prop extends Numeral ds where
  eq_zero : ds.head? = some '0' → ds = ['0']

/-! ### Digits -/

theorem toNat_of_isDigit {c : Char} (h : c.isDigit = true) : 48 ≤ c.toNat ∧ c.toNat ≤ 57 :=
  Char.isDigit_iff_toNat.mp h

theorem digitValue_lt {c : Char} (h : c.isDigit = true) : digitValue c < 10 := by
  have hc := toNat_of_isDigit h
  show c.toNat - 48 < 10
  omega

theorem digitValue_inj {c d : Char} (hc : c.isDigit = true) (hd : d.isDigit = true)
    (h : digitValue c = digitValue d) : c = d := by
  have hc := toNat_of_isDigit hc
  have hd := toNat_of_isDigit hd
  have hnat : c.toNat - 48 = d.toNat - 48 := h
  rw [← Char.ofNat_toNat c, ← Char.ofNat_toNat d]
  exact congrArg Char.ofNat (by omega)

theorem map_digitValue_inj {ds es : List Char} (hds : ∀ c ∈ ds, c.isDigit = true)
    (hes : ∀ c ∈ es, c.isDigit = true) (h : ds.map digitValue = es.map digitValue) : ds = es := by
  induction ds generalizing es with
  | nil => simpa using h.symm
  | cons c ds ih =>
    cases es with
    | nil => simp at h
    | cons d es =>
      simp only [List.map_cons, List.cons.injEq] at h
      have hc := digitValue_inj (hds c List.mem_cons_self) (hes d List.mem_cons_self) h.1
      have htail := ih (fun c hc => hds c (List.mem_cons_of_mem _ hc))
        (fun d hd => hes d (List.mem_cons_of_mem _ hd)) h.2
      rw [hc, htail]

/-! ### The number of a numeral -/

/-- The first digit counts as many powers of ten as digits follow it. -/
theorem value_cons (c : Char) (ds : List Char) :
    value (c :: ds) = value ds + 10 ^ ds.length * digitValue c := by
  simp [value, Nat.ofDigits_append]

/-- Reading digit by digit, ten times what was read so far and the next digit, comes to the number. -/
theorem ofDigitChars_eq_value (ds : List Char) : Nat.ofDigitChars 10 ds 0 = value ds := by
  induction ds with
  | nil => rfl
  | cons c ds ih =>
    rw [Nat.ofDigitChars_cons, Nat.ofDigitChars_eq_ofDigitChars_zero, ih, value_cons, Nat.mul_zero,
      Nat.zero_add, Nat.add_comm]
    rfl

/-- **Reading accepts the numerals, each as its number, and nothing else.** -/
theorem read?_eq_some_iff {cs : List Char} {n : Nat} :
    read? cs = some n ↔ Numeral cs ∧ value cs = n := by
  rw [read?, ofDigitChars_eq_value]
  constructor
  · intro h
    split at h
    · next hcs =>
      simp only [Bool.and_eq_true, Bool.not_eq_true', List.isEmpty_eq_false_iff,
        List.all_eq_true] at hcs
      exact ⟨⟨hcs.1, hcs.2⟩, Option.some.inj h⟩
    · cases h
  · rintro ⟨⟨hne, hdigits⟩, rfl⟩
    have hempty : cs.isEmpty = false := List.isEmpty_eq_false_iff.mpr hne
    have hall : cs.all Char.isDigit = true := List.all_eq_true.mpr hdigits
    rw [hempty, hall]
    rfl

/-! ### The canonical numeral -/

theorem head?_toDigits {n : Nat} (h : 0 < n) : (Nat.toDigits 10 n).head? ≠ some '0' := by
  induction n using Nat.strongRecOn with
  | ind n ih =>
    rw [Nat.toDigits_eq_if (by decide)]
    split
    · next hlt =>
      have : ∀ d < 10, 0 < d → [Nat.digitChar d].head? ≠ some '0' := by decide
      exact this n hlt h
    · next hle =>
      have hrec := ih (n / 10) (by omega) (by omega)
      cases hd : Nat.toDigits 10 (n / 10) with
      | nil => exact absurd hd Nat.toDigits_ne_nil
      | cons d ds => rw [hd] at hrec; simpa using hrec

theorem write_numeral (n : Nat) : Numeral (write n) := (read?_eq_some_iff.mp (read?_write n)).1

theorem value_write (n : Nat) : value (write n) = n := (read?_eq_some_iff.mp (read?_write n)).2

theorem write_canonical (n : Nat) : Canonical (write n) where
  toNumeral := write_numeral n
  eq_zero := by
    intro hhead
    cases n with
    | zero => rfl
    | succ n => exact absurd hhead (head?_toDigits n.succ_pos)

/-- A number whose numeral does not begin with a zero has just these digits. -/
theorem Numeral.digits_value {ds : List Char} (h : Numeral ds) (hhead : ds.head? ≠ some '0') :
    Nat.digits 10 (value ds) = ds.reverse.map digitValue := by
  refine Nat.digits_ofDigits 10 (by decide) _ ?_ ?_
  · intro d hd
    obtain ⟨c, hc, rfl⟩ := List.mem_map.mp hd
    exact digitValue_lt (h.isDigit c (List.mem_reverse.mp hc))
  · -- the last of the reversed digits is the first of the numeral
    intro hne hlast
    obtain ⟨c, rest, rfl⟩ := List.exists_cons_of_ne_nil h.ne_nil
    have hzero : digitValue c = 0 := by simpa using hlast
    have hc : c = '0' := digitValue_inj (h.isDigit c List.mem_cons_self) rfl hzero
    exact hhead (congrArg some hc)

/-- A numeral of the number zero begins with a zero. -/
theorem Numeral.head?_of_value_eq_zero {ds : List Char} (h : Numeral ds) (hvalue : value ds = 0) :
    ds.head? = some '0' := by
  by_contra hhead
  have hdigits := h.digits_value hhead
  rw [hvalue, Nat.digits_zero] at hdigits
  exact h.ne_nil (by simpa using hdigits.symm)

/-- A number has one canonical numeral. -/
theorem Canonical.eq_of_value_eq {ds es : List Char} (hds : Canonical ds) (hes : Canonical es)
    (h : value ds = value es) : ds = es := by
  by_cases hhead : ds.head? = some '0'
  · obtain rfl := hds.eq_zero hhead
    exact (hes.eq_zero (hes.head?_of_value_eq_zero h.symm)).symm
  · have hhead' : es.head? ≠ some '0' := by
      intro hhead'
      obtain rfl := hes.eq_zero hhead'
      exact hhead (hds.head?_of_value_eq_zero h)
    have hdigits := (hds.digits_value hhead).symm.trans (h ▸ hes.digits_value hhead')
    refine List.reverse_inj.mp (map_digitValue_inj ?_ ?_ hdigits)
    · exact fun c hc => hds.isDigit c (List.mem_reverse.mp hc)
    · exact fun c hc => hes.isDigit c (List.mem_reverse.mp hc)

/-- **What is written of a number is its canonical numeral.** -/
theorem canonical_iff {ds : List Char} {n : Nat} :
    Canonical ds ∧ value ds = n ↔ ds = write n := by
  constructor
  · rintro ⟨hds, hvalue⟩
    exact hds.eq_of_value_eq (write_canonical n) (hvalue.trans (value_write n).symm)
  · rintro rfl
    exact ⟨write_canonical n, value_write n⟩

theorem write_inj {m n : Nat} (h : write m = write n) : m = n := by
  rw [← value_write m, h, value_write]

end Custody.Decimal
