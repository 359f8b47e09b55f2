import Custody.Proofs.Json.Lawful
import Custody.Proofs.Json.Lexeme
import Custody.Proofs.Store.Parts
import Custody.Proofs.Text.Decimal

/-!
# The grammar of quantities

A quantity is a natural number of any size.  It is written as a string of its digits; it is also read
from a string with zeros in front, and from a number that is written with digits alone and fits in 64
bits.  Nothing else is read: no sign, fraction or exponent, no blank or separator inside, no other
kind of value.

* `quantity?_eq_some_iff`: the values that stand for a quantity.
* `numeral?_bind_quantity?`: the numbers, as they are written, that stand for a quantity.
* `Writes`: the ways to write a quantity.
* `parsePieces?_bind_quantity?`: **the texts that denote a quantity.**
* `quantity_grammar`: **reading accepts just the grammar, and writing chooses one text for each
  quantity.**
-/

namespace Custody.Json

open Decimal (Numeral Canonical value)

/-! ### Values -/

/-- The values that stand for a quantity: a string of digits, and a whole number of 64 bits. -/
inductive IsQuantity : Json → Nat → Prop
  | digits {ds : List Char} : Numeral ds → IsQuantity (text (String.ofList ds)) (value ds)
  | number {n : Nat} : n < UInt64.size → IsQuantity (int n) n

theorem below?_eq_some_iff {bound n : Nat} {j : Json} :
    below? bound j = some n ↔ j = int n ∧ n < bound := by
  constructor
  · intro h
    unfold below? at h
    split at h
    · split at h
      · next hlt =>
        obtain rfl := Option.some.inj h
        exact ⟨rfl, hlt⟩
      · cases h
    · cases h
  · rintro ⟨rfl, h⟩
    exact below?_int h

/-- **A quantity is read from the values that stand for one, and from no other.** -/
theorem quantity?_eq_some_iff {j : Json} {n : Nat} :
    quantity? j = some n ↔ IsQuantity j n := by
  constructor
  · intro h
    unfold quantity? at h
    split at h
    · next s =>
      obtain ⟨hnumeral, rfl⟩ := Decimal.read?_eq_some_iff.mp h
      have htext := IsQuantity.digits hnumeral
      rwa [String.ofList_toList] at htext
    · obtain ⟨rfl, hlt⟩ := below?_eq_some_iff.mp h
      exact .number hlt
  · intro h
    cases h with
    | digits hnumeral =>
      rw [quantity?, String.toList_ofList]
      exact Decimal.read?_eq_some_iff.mpr ⟨hnumeral, rfl⟩
    | number hlt => exact below?_eq_some_iff.mpr ⟨rfl, hlt⟩

/-! ### Numbers as they are written -/

theorem quantity?_realNumber (negative : Bool) (whole fraction : List Char) (exponent : Int) :
    quantity? (realNumber negative whole fraction exponent) = none := by
  unfold realNumber
  split <;> rfl

theorem quantity?_int {k : Int} {n : Nat} :
    quantity? (int k) = some n ↔ k = n ∧ n < UInt64.size := by
  refine below?_eq_some_iff.trans ?_
  rw [int.injEq]
  exact Iff.rfl

theorem quantity?_wholeNumber {negative : Bool} {whole : List Char} {n : Nat} :
    quantity? (wholeNumber negative whole) = some n ↔
      negative = false ∧ value whole = n ∧ n < UInt64.size := by
  rw [wholeNumber, Decimal.ofDigitChars_eq_value]
  cases negative with
  | true =>
    refine iff_of_false ?_ (by simp)
    intro h
    split at h
    · cases h
    · next hzero =>
      split at h
      · -- a number below zero
        obtain ⟨hn, -⟩ := quantity?_int.mp h
        simp only [Bool.true_and, beq_iff_eq] at hzero
        simp only [if_true] at hn
        omega
      · cases h
  | false =>
    rw [Bool.false_and, if_neg Bool.false_ne_true, if_neg Bool.false_ne_true]
    constructor
    · intro h
      split at h
      · obtain ⟨hn, hlt⟩ := quantity?_int.mp h
        exact ⟨rfl, by omega, hlt⟩
      · cases h
    · rintro ⟨-, rfl, hlt⟩
      have hdouble : isDouble whole [] 0 = true :=
        isDouble_of_lt (by rwa [Decimal.ofDigitChars_eq_value])
      rw [if_pos hdouble]
      exact quantity?_int.mpr ⟨rfl, hlt⟩

/-- A fraction or an exponent makes a number that is no quantity. -/
theorem scaled?_bind_quantity? {negative : Bool} {whole rest : List Char} {n : Nat} :
    (scaled? negative whole rest).bind quantity? = some n ↔
      rest = [] ∧ quantity? (wholeNumber negative whole) = some n := by
  -- what has an exponent comes from `realNumber`
  have hreal : ∀ {o : Option Int} {fraction : List Char},
      (o.map (realNumber negative whole fraction)).bind quantity? ≠ some n := by
    intro o fraction h
    cases o with
    | none => cases h
    | some exponent =>
      rw [Option.map_some, Option.bind_some, quantity?_realNumber] at h
      cases h
  cases rest with
  | nil => simp [scaled?]
  | cons c cs =>
    refine iff_of_false ?_ (by simp)
    intro h
    unfold scaled? at h
    split at h
    · next hnil => cases hnil
    · simp only at h
      split at h
      · cases h
      split at h
      · rw [Option.bind_some, quantity?_realNumber] at h
        cases h
      · split at h
        · exact hreal h
        · cases h
    · split at h
      · exact hreal h
      · cases h

theorem of_spanDigits {cs whole rest : List Char} (h : spanDigits cs = (whole, rest)) :
    cs = whole ++ rest ∧ ∀ c ∈ whole, c.isDigit = true := by
  rw [spanDigits, List.span_eq_takeWhile_dropWhile] at h
  obtain ⟨rfl, rfl⟩ := Prod.mk.inj h
  exact ⟨List.takeWhile_append_dropWhile.symm, fun c hc => List.mem_takeWhile_imp hc⟩

theorem unsigned?_bind_quantity? {negative : Bool} {cs : List Char} {n : Nat} :
    (unsigned? negative cs).bind quantity? = some n ↔
      negative = false ∧ Canonical cs ∧ value cs = n ∧ n < UInt64.size := by
  constructor
  · intro h
    cases hspan : spanDigits cs with
    | mk whole rest =>
      obtain ⟨rfl, hdigits⟩ := of_spanDigits hspan
      simp only [unsigned?, hspan] at h
      split at h
      · cases h
      · cases h
      · next hne hzero =>
        obtain ⟨rfl, hwhole⟩ := scaled?_bind_quantity?.mp h
        obtain ⟨hnegative, hvalue, hlt⟩ := quantity?_wholeNumber.mp hwhole
        rw [List.append_nil]
        refine ⟨hnegative, ⟨⟨hne, hdigits⟩, ?_⟩, hvalue, hlt⟩
        intro hhead
        cases whole with
        | nil => cases hhead
        | cons c whole =>
          obtain rfl := Option.some.inj hhead
          cases whole with
          | nil => rfl
          | cons d whole => exact (hzero d whole rfl).elim
  · rintro ⟨rfl, hcs, rfl, hlt⟩
    simp only [unsigned?, spanDigits_of_all hcs.isDigit]
    split
    · exact absurd rfl hcs.ne_nil
    · cases hcs.eq_zero rfl
    · exact scaled?_bind_quantity?.mpr ⟨rfl, quantity?_wholeNumber.mpr ⟨rfl, rfl, hlt⟩⟩

/-- **A number is a quantity just if it is written as a canonical numeral below the bound.** -/
theorem numeral?_bind_quantity? {cs : List Char} {n : Nat} :
    (numeral? cs).bind quantity? = some n ↔ Canonical cs ∧ value cs = n ∧ n < UInt64.size := by
  unfold numeral?
  split
  · next cs =>
    rw [unsigned?_bind_quantity?]
    refine iff_of_false (by simp) ?_
    rintro ⟨hcs, -⟩
    have hminus := hcs.isDigit '-' List.mem_cons_self
    exact absurd hminus (by decide)
  · rw [unsigned?_bind_quantity?]
    exact and_iff_right rfl

/-! ### Strings of digits as they are written -/

/-- How digits may stand in a string: each for itself or as its `\\u` escape. -/
inductive Spells : List Char → List Char → Prop
  | nil : Spells [] []
  | plain {d : Char} {cs ds : List Char} : d.isDigit = true → Spells cs ds →
      Spells (d :: cs) (d :: ds)
  | escaped {d : Char} {cs ds : List Char} : d.isDigit = true → Spells cs ds →
      Spells ('\\' :: 'u' :: '0' :: '0' :: '3' :: d :: cs) (d :: ds)

theorem Spells.isDigit {cs ds : List Char} (h : Spells cs ds) : ∀ d ∈ ds, d.isDigit = true := by
  induction h with
  | nil => exact fun d hd => absurd hd List.not_mem_nil
  | plain hd _ ih => exact List.forall_mem_cons.mpr ⟨hd, ih⟩
  | escaped hd _ ih => exact List.forall_mem_cons.mpr ⟨hd, ih⟩

theorem hexValue?_of_isDigit {d : Char} (h : d.isDigit = true) :
    hexValue? d = some (d.toNat - 0x30) := by
  have hd := Decimal.toNat_of_isDigit h
  simp only [hexValue?]
  rw [if_pos (by omega)]

theorem eq_of_hexValue?_lt {c : Char} {n : Nat} (h : hexValue? c = some n) (hn : n < 10) :
    c = Char.ofNat (0x30 + n) := by
  simp only [hexValue?] at h
  split at h
  · have hc := Option.some.inj h
    rw [← Char.ofNat_toNat c]
    exact congrArg Char.ofNat (by omega)
  split at h
  · have hc := Option.some.inj h
    omega
  split at h
  · have hc := Option.some.inj h
    omega
  · cases h

theorem hexValue?_lt {c : Char} {n : Nat} (h : hexValue? c = some n) : n < 16 := by
  simp only [hexValue?] at h
  split at h
  · have hc := Option.some.inj h
    omega
  split at h
  · have hc := Option.some.inj h
    omega
  split at h
  · have hc := Option.some.inj h
    omega
  · cases h

/-- A digit has one escape. -/
theorem hexNumber?_eq_digit {hex : List Char} {d : Char} (hlength : hex.length = 4)
    (hd : d.isDigit = true) : hexNumber? 0 hex = some d.toNat ↔ hex = ['0', '0', '3', d] := by
  have hrange := Decimal.toNat_of_isDigit hd
  constructor
  · intro h
    obtain ⟨a, b, c, e, rfl⟩ : ∃ a b c e, hex = [a, b, c, e] := by
      match hex, hlength with
      | [a, b, c, e], _ => exact ⟨a, b, c, e, rfl⟩
    simp only [hexNumber?, Option.bind_eq_some_iff, Option.some.injEq] at h
    obtain ⟨a', ha, b', hb, c', hc, e', he, hn⟩ := h
    have halt := hexValue?_lt ha
    have hblt := hexValue?_lt hb
    have hclt := hexValue?_lt hc
    have helt := hexValue?_lt he
    obtain rfl : a' = 0 := by omega
    obtain rfl : b' = 0 := by omega
    obtain rfl : c' = 3 := by omega
    have he' : Char.ofNat (0x30 + e') = d := by
      rw [← Char.ofNat_toNat d]
      exact congrArg Char.ofNat (by omega)
    rw [eq_of_hexValue?_lt ha (by omega), eq_of_hexValue?_lt hb (by omega),
      eq_of_hexValue?_lt hc (by omega), eq_of_hexValue?_lt he (by omega), he']
  · rintro rfl
    have hzero : hexValue? '0' = some 0 := rfl
    have hthree : hexValue? '3' = some 3 := rfl
    simp only [hexNumber?, hzero, hthree, hexValue?_of_isDigit hd, Option.bind_some]
    exact congrArg some (by omega)

/-- A short escape stands for no digit. -/
theorem isDigit_of_shortEscape? {c d : Char} (h : shortEscape? c = some d) : d.isDigit = false := by
  unfold shortEscape? at h
  split at h
  case h_9 => cases h
  all_goals
    obtain rfl := Option.some.inj h
    rfl

theorem eq_toNat_of_ofNat {n : Nat} {d : Char} (hd : d.isDigit = true) (h : Char.ofNat n = d) :
    n = d.toNat := by
  subst h
  by_cases hn : n.isValidChar
  · exact (Utf8.toNat_val_ofNat hn).symm
  · -- a number that is no character stands for the character zero
    rw [Char.ofNat, dif_neg hn] at hd
    cases hd

theorem exists_cons_of_pairUnits {u : Unit16} {us : List Unit16} {cs : List Char}
    (h : pairUnits (u :: us) = some cs) : ∃ c cs', cs = c :: cs' := by
  have hmap : ∀ {c : Char} {o : Option (List Char)},
      o.map (c :: ·) = some cs → ∃ c cs', cs = c :: cs' := by
    intro c o ho
    obtain ⟨cs', -, rfl⟩ := Option.map_eq_some_iff.mp ho
    exact ⟨c, cs', rfl⟩
  unfold pairUnits at h
  split at h
  · next hnil => cases hnil
  · exact hmap h
  · cases h
  · split at h
    · exact hmap h
    split at h
    · cases h
    · exact hmap h
  · split at h
    · cases h
    · exact hmap h

/-- A unit that begins a text with a digit is the number of that digit: a pair of halves denotes a
character far beyond. -/
theorem pairUnits_unit_eq {n : Nat} {us : List Unit16} {d : Char} {ds : List Char}
    (hd : d.isDigit = true) :
    pairUnits (.unit n :: us) = some (d :: ds) ↔ n = d.toNat ∧ pairUnits us = some ds := by
  have hrange := Decimal.toNat_of_isDigit hd
  constructor
  · intro h
    have hfirst : ∀ {m : Nat} {o : Option (List Char)},
        o.map (Char.ofNat m :: ·) = some (d :: ds) → m = d.toNat ∧ o = some ds := by
      intro m o ho
      obtain ⟨ds', rfl, hcons⟩ := Option.map_eq_some_iff.mp ho
      obtain ⟨hm, rfl⟩ := List.cons.inj hcons
      exact ⟨eq_toNat_of_ofNat hd hm, rfl⟩
    unfold pairUnits at h
    split at h
    · next hnil => cases hnil
    · next hchar => cases hchar
    · next hbroken => cases hbroken
    · next high low rest hus =>
      obtain ⟨hn, rfl⟩ := List.cons.inj hus
      obtain rfl := Unit16.unit.inj hn
      split at h
      · have hpair := (hfirst h).1
        omega
      split at h
      · cases h
      · exact hfirst h
    · next high rest _ hus =>
      obtain ⟨hn, rfl⟩ := List.cons.inj hus
      obtain rfl := Unit16.unit.inj hn
      split at h
      · cases h
      · exact hfirst h
  · rintro ⟨rfl, hus⟩
    have hhigh : isHighSurrogate d.toNat = false := by simp [isHighSurrogate]; omega
    have hlow : isLowSurrogate d.toNat = false := by simp [isLowSurrogate]; omega
    rw [pairUnits_unit hhigh hlow, hus]
    simp

/-- **A string of digits is written digit by digit, each for itself or as its escape.** -/
theorem inside_iff_spells {cs ds : List Char} (hds : ∀ d ∈ ds, d.isDigit = true) :
    (∃ us, Inside cs us ∧ pairUnits us = some ds) ↔ Spells cs ds := by
  constructor
  · rintro ⟨us, hinside, hus⟩
    induction hinside generalizing ds with
    | nil =>
      obtain rfl := Option.some.inj hus
      exact .nil
    | @char c cs us _ _ _ _ ih =>
      obtain ⟨ds', hus', rfl⟩ := Option.map_eq_some_iff.mp hus
      obtain ⟨hd, hds'⟩ := List.forall_mem_cons.mp hds
      exact .plain hd (ih hds' hus')
    | @short c d cs us hshort _ ih =>
      obtain ⟨ds', -, rfl⟩ := Option.map_eq_some_iff.mp hus
      have hd := hds d List.mem_cons_self
      rw [isDigit_of_shortEscape? hshort] at hd
      cases hd
    | @unit hex cs n us hlength hn _ ih =>
      obtain ⟨d, ds', rfl⟩ := exists_cons_of_pairUnits hus
      obtain ⟨hd, hds'⟩ := List.forall_mem_cons.mp hds
      obtain ⟨rfl, hus'⟩ := (pairUnits_unit_eq hd).mp hus
      obtain rfl := (hexNumber?_eq_digit hlength hd).mp hn
      exact .escaped hd (ih hds' hus')
  · intro h
    induction h with
    | nil => exact ⟨[], .nil, rfl⟩
    | @plain d cs ds hd _ ih =>
      obtain ⟨us, hinside, hus⟩ := ih (List.forall_mem_cons.mp hds).2
      have hrange := Decimal.toNat_of_isDigit hd
      refine ⟨.char d :: us, .char ?_ ?_ (by omega) hinside, ?_⟩
      · rintro rfl
        cases hd
      · rintro rfl
        cases hd
      · rw [pairUnits, hus]
        rfl
    | @escaped d cs ds hd _ ih =>
      obtain ⟨us, hinside, hus⟩ := ih (List.forall_mem_cons.mp hds).2
      refine ⟨.unit d.toNat :: us, ?_, (pairUnits_unit_eq hd).mpr ⟨rfl, hus⟩⟩
      exact @Inside.unit ['0', '0', '3', d] cs d.toNat us rfl
        ((hexNumber?_eq_digit rfl hd).mpr rfl) hinside

/-! ### Texts -/

/-- **The ways to write a quantity**: as a number without a needless zero that fits in 64 bits, or
as a string of one or more digits. -/
inductive Writes : List Char → Nat → Prop
  | number {ds : List Char} : Canonical ds → value ds < UInt64.size → Writes ds (value ds)
  | string {inside ds : List Char} : Spells inside ds → ds ≠ [] →
      Writes ('"' :: (inside ++ ['"'])) (value ds)

/-- A word stands for no quantity. -/
theorem quantity?_of_word? {w : List Char} {j : Json} (h : word? w = some j) :
    quantity? j = none := by
  unfold word? at h
  split at h
  case h_4 => cases h
  all_goals
    obtain rfl := Option.some.inj h
    rfl

theorem IsQuantity.isCompound {j : Json} {n : Nat} (h : IsQuantity j n) : isCompound j = false := by
  cases h <;> rfl

/-- **The texts that denote a quantity**: one of the ways to write it, between blanks. -/
theorem parsePieces?_bind_quantity? {pieces : List (Option Char)} {n : Nat} :
    (parsePieces? pieces).bind quantity? = some n ↔ ∃ before w after, Blank before ∧
      Blank after ∧ Writes w n ∧ pieces = (before ++ (w ++ after)).map some := by
  constructor
  · intro h
    obtain ⟨j, hj, hn⟩ := Option.bind_eq_some_iff.mp h
    rw [parsePieces?_eq] at hj
    obtain ⟨ts, hts, hbuild⟩ := Option.bind_eq_some_iff.mp hj
    have hquantity := quantity?_eq_some_iff.mp hn
    rcases tokens_of_build? hquantity.isCompound hbuild with rfl | ⟨s, rfl, rfl⟩
    · rcases literal_of_tokens? hts with ⟨before, w, after, rfl, hbefore, hafter, hw⟩ | ⟨w, hw⟩
      · have hbind : (numeral? w).bind quantity? = some n := by rw [hw]; exact hn
        obtain ⟨hcanonical, rfl, hlt⟩ := numeral?_bind_quantity?.mp hbind
        exact ⟨before, w, after, hbefore, hafter, .number hcanonical hlt, rfl⟩
      · rw [quantity?_of_word? hw] at hn
        cases hn
    · obtain ⟨before, inside, us, after, rfl, hbefore, hafter, hinside, hus⟩ :=
        string_of_tokens?_iff.mp hts
      obtain ⟨hnumeral, rfl⟩ := Decimal.read?_eq_some_iff.mp hn
      have hspells := (inside_iff_spells hnumeral.isDigit).mp ⟨us, hinside, hus⟩
      exact ⟨before, _, after, hbefore, hafter, .string hspells hnumeral.ne_nil, by simp⟩
  · rintro ⟨before, w, after, hbefore, hafter, hw, rfl⟩
    rw [parsePieces?_eq]
    cases hw with
    | number hcanonical hlt =>
      obtain ⟨j, hj, hn⟩ := Option.bind_eq_some_iff.mp
        (numeral?_bind_quantity?.mpr ⟨hcanonical, rfl, hlt⟩)
      rw [tokens?_number hbefore hafter hcanonical.isDigit hj]
      exact hn
    | @string inside ds hspells hne =>
      obtain ⟨us, hinside, hus⟩ := (inside_iff_spells hspells.isDigit).mpr hspells
      have htokens := string_of_tokens?_iff (s := String.ofList ds).mpr
        ⟨before, inside, us, after, rfl, hbefore, hafter, hinside, by simpa using hus⟩
      have htext : before ++ ('"' :: (inside ++ ['"']) ++ after) =
          before ++ '"' :: (inside ++ '"' :: after) := by simp
      rw [htext, htokens]
      exact quantity?_eq_some_iff.mpr (.digits ⟨hne, hspells.isDigit⟩)

/-- The quantity that a text in bytes denotes. -/
def readQuantity? (bytes : Bytes) : Option Nat := (parseBytes? bytes).bind quantity?

/-- The text of a quantity, in bytes. -/
def writeQuantity (n : Nat) : Bytes := (quantity n).bytes

theorem readQuantity?_eq_some_iff {bytes : Bytes} {n : Nat} :
    readQuantity? bytes = some n ↔ ∃ before w after, Blank before ∧ Blank after ∧
      Writes w n ∧ bytes = Utf8.encode (before ++ (w ++ after)) := by
  refine parsePieces?_bind_quantity?.trans ?_
  constructor
  · rintro ⟨before, w, after, hbefore, hafter, hw, hpieces⟩
    exact ⟨before, w, after, hbefore, hafter, hw, (Utf8.encode_of_pieces hpieces).symm⟩
  · rintro ⟨before, w, after, hbefore, hafter, hw, rfl⟩
    exact ⟨before, w, after, hbefore, hafter, hw, Utf8.pieces_encode _⟩

theorem readQuantity?_writeQuantity (n : Nat) : readQuantity? (writeQuantity n) = some n := by
  rw [readQuantity?, writeQuantity, parseBytes?_bytes (Nat.zero_le _) (isPlain_quantity 0 n),
    Option.bind_some, quantity?_quantity]

theorem writeQuantity_inj {m n : Nat} (h : writeQuantity m = writeQuantity n) : m = n := by
  have hread := readQuantity?_writeQuantity m
  rw [h, readQuantity?_writeQuantity] at hread
  exact (Option.some.inj hread).symm

/-- Digits need no escape. -/
theorem writeQuantity_eq (n : Nat) :
    writeQuantity n = Utf8.encode ('"' :: (Decimal.write n ++ ['"'])) := by
  have hescape : ∀ {ds : List Char}, (∀ d ∈ ds, d.isDigit = true) → ds.flatMap escape = ds := by
    intro ds hds
    induction ds with
    | nil => rfl
    | cons d ds ih =>
      obtain ⟨hd, hds⟩ := List.forall_mem_cons.mp hds
      have hrange := Decimal.toNat_of_isDigit hd
      have hquote : d ≠ '"' := by
        rintro rfl
        cases hd
      have hslash : d ≠ '\\' := by
        rintro rfl
        cases hd
      have hplain : escape d = [d] := by
        rw [escape, if_neg hquote, if_neg hslash, if_pos (by omega)]
      rw [List.flatMap_cons, hplain, ih hds, List.singleton_append]
  rw [writeQuantity, quantity, bytes, chars, quoted, String.toList_ofList,
    hescape (Decimal.write_numeral n).isDigit]

/-- **The grammar of quantities.**  A JSON value is read as a quantity just if it is a string of one
or more ASCII digits or a whole number of 64 bits; a number, as it is written, just if it is digits
alone without a needless zero and fits in 64 bits; and a whole text just if it is one of these, where
a digit of a string may also be written as its escape, with nothing but blanks around it.  Each is
read as the number that its digits denote.  Every number has one numeral without a needless zero;
this is what is written, in quotation marks, and it is read as that number.  So two texts that are
read denote the same quantity just if the same text is written of what they denote. -/
theorem quantity_grammar :
    (∀ j n, quantity? j = some n ↔ IsQuantity j n) ∧
    (∀ cs n, (numeral? cs).bind quantity? = some n ↔
      Canonical cs ∧ value cs = n ∧ n < UInt64.size) ∧
    (∀ bytes n, readQuantity? bytes = some n ↔ ∃ before w after, Blank before ∧ Blank after ∧
      Writes w n ∧ bytes = Utf8.encode (before ++ (w ++ after))) ∧
    (∀ n, writeQuantity n = Utf8.encode ('"' :: (Decimal.write n ++ ['"'])) ∧
      (∀ ds, Canonical ds ∧ value ds = n ↔ ds = Decimal.write n) ∧
      readQuantity? (writeQuantity n) = some n) ∧
    ∀ t u m n, readQuantity? t = some m → readQuantity? u = some n →
      (m = n ↔ writeQuantity m = writeQuantity n) := by
  refine ⟨fun _ _ => quantity?_eq_some_iff, fun _ _ => numeral?_bind_quantity?,
    fun _ _ => readQuantity?_eq_some_iff, fun n => ?_, ?_⟩
  · exact ⟨writeQuantity_eq n, fun _ => Decimal.canonical_iff, readQuantity?_writeQuantity n⟩
  · intro t u m n _ _
    exact ⟨congrArg writeQuantity, writeQuantity_inj⟩

/-- The greatest number of 64 bits, and the next one, which only a string can hold. -/
theorem quantity_grammar_at_bound :
    readQuantity? (Utf8.ofString " 18446744073709551615") = some 18446744073709551615 ∧
    readQuantity? (Utf8.ofString "18446744073709551616") = none ∧
    readQuantity? (Utf8.ofString "\"0\\u00318446744073709551616\"") =
      some 18446744073709551616 ∧
    writeQuantity 18446744073709551615 ≠ writeQuantity 18446744073709551616 := by
  have hnumber : readQuantity? (Utf8.ofString " 18446744073709551615") =
      some 18446744073709551615 := by decide +kernel
  have hstring : readQuantity? (Utf8.ofString "\"0\\u00318446744073709551616\"") =
      some 18446744073709551616 := by decide +kernel
  refine ⟨hnumber, by decide +kernel, hstring, ?_⟩
  obtain ⟨-, -, -, -, hsame⟩ := quantity_grammar
  exact fun h => absurd ((hsame _ _ _ _ hnumber hstring).mpr h) (by decide)

end Custody.Json
