import Mathlib.Data.List.TakeDrop
import Mathlib.Data.List.TakeWhile
import Custody.Json.Parser
import Custody.Json.Printer
import Custody.Proofs.Text.Decimal

/-!
# Reading written tokens

The reader is a fold over characters.  This file says what it makes of the strings, numbers and
words that the printer writes: a string and its quotation marks are one token, and a number or a
word stays open until a character ends it.

* `after_quoted`: a quoted text, escapes and all, is read as the token of that text.
* `numeral?_intChars`: the characters of a whole number that fits in 64 bits denote it.
* `Settles`: a reader whose last token may still be open goes on as if that token were complete.
-/

namespace Custody.Json

/-! ### Reading a stretch of characters -/

/-- The reader after a stretch of characters. -/
def Reader.after (r : Reader) (cs : List Char) : Option Reader :=
  cs.foldlM (fun r c => r.step (some c)) r

theorem after_cons (r : Reader) (c : Char) (cs : List Char) :
    r.after (c :: cs) = (r.step (some c)).bind fun r => r.after cs := by
  simp [Reader.after, List.foldlM_cons, bind]

theorem after_append (r : Reader) (as bs : List Char) :
    r.after (as ++ bs) = (r.after as).bind fun r => r.after bs := by
  simp [Reader.after, List.foldlM_append, bind]

theorem after_cons_of_step {r r' : Reader} {c : Char} {cs : List Char}
    (h : r.step (some c) = some r') : r.after (c :: cs) = r'.after cs := by
  rw [after_cons, h, Option.bind_some]

theorem after_append_of_after {r r' : Reader} {as bs : List Char} (h : r.after as = some r') :
    r.after (as ++ bs) = r'.after bs := by
  rw [after_append, h, Option.bind_some]

/-- A character that completes no token leaves the containers as they are. -/
theorem step_of_quiet {s t : Scan} {c : Char} (b : Builder) (h : s.step (some c) = some ([], t)) :
    Reader.step ⟨s, b⟩ (some c) = some ⟨t, b⟩ := by
  simp [Reader.step, h, bind, List.foldlM]

/-- A character that completes one token hands it to the containers. -/
theorem step_of_token {s s' : Scan} {c : Char} {t : Token} {b d : Builder}
    (h : s.step (some c) = some ([t], s')) (hb : b.take t = some d) :
    Reader.step ⟨s, b⟩ (some c) = some ⟨s', d⟩ := by
  simp [Reader.step, h, bind, List.foldlM, hb]

/-! ### Strings -/

theorem hexValue?_hexDigit : ∀ d < 16, hexValue? (hexDigit d) = some d := by decide

/-- The part of a string that a character is written as: a control character without a short form
is written as a unit. -/
def unitOf (c : Char) : Unit16 :=
  if c.toNat < 0x20 ∧ c.toNat ∉ [8, 9, 10, 12, 13] then .unit c.toNat else .char c

theorem after_slash (read : List Unit16) (b : Builder) {c d : Char} (h : shortEscape? c = some d)
    (hu : c ≠ 'u') :
    Reader.after ⟨.string read .outside, b⟩ ['\\', c] =
      some ⟨.string (.char d :: read) .outside, b⟩ := by
  rw [after_cons_of_step (step_of_quiet b (t := .string read .slash) rfl)]
  refine after_cons_of_step (step_of_quiet b ?_)
  simp [Scan.step, Scan.inString, h, hu]

theorem after_unit (read : List Unit16) (b : Builder) {n : Nat} (h : n < 0x20) :
    Reader.after ⟨.string read .outside, b⟩
      ['\\', 'u', '0', '0', hexDigit (n / 16), hexDigit (n % 16)] =
      some ⟨.string (.unit n :: read) .outside, b⟩ := by
  have hhigh := hexValue?_hexDigit (n / 16) (by omega)
  have hlow := hexValue?_hexDigit (n % 16) (by omega)
  have hn : n / 16 * 16 + n % 16 = n := by omega
  rw [after_cons_of_step (step_of_quiet b (t := .string read .slash) rfl),
    after_cons_of_step (step_of_quiet b (t := .string read (.hex 4 0)) rfl),
    after_cons_of_step (step_of_quiet b (t := .string read (.hex 3 0)) rfl),
    after_cons_of_step (step_of_quiet b (t := .string read (.hex 2 0)) rfl),
    after_cons_of_step (step_of_quiet b (t := .string read (.hex 1 (n / 16))) ?_)]
  · refine after_cons_of_step (step_of_quiet b ?_)
    simp [Scan.step, Scan.inString, hlow, hn]
  · simp [Scan.step, Scan.inString, hhigh]

/-- An escaped character is read as its part of the string. -/
theorem after_escape (read : List Unit16) (b : Builder) (c : Char) :
    Reader.after ⟨.string read .outside, b⟩ (escape c) =
      some ⟨.string (unitOf c :: read) .outside, b⟩ := by
  have eq_of_toNat : ∀ {d : Char}, c.toNat = d.toNat → c = d := fun h => by
    rw [← Char.ofNat_toNat c, h, Char.ofNat_toNat]
  unfold escape
  split
  · next h => subst h; exact after_slash read b rfl (by decide)
  split
  · next h => subst h; exact after_slash read b rfl (by decide)
  split
  · next hq hs h =>
    have hu : unitOf c = .char c := if_neg fun hc => by omega
    rw [hu]
    refine after_cons_of_step (step_of_quiet b ?_)
    simp [Scan.step, Scan.inString, hq, hs, Nat.not_lt.mpr h]
  split
  · next h => obtain rfl := eq_of_toNat (d := '\x08') h; exact after_slash read b rfl (by decide)
  split
  · next h => obtain rfl := eq_of_toNat (d := '\t') h; exact after_slash read b rfl (by decide)
  split
  · next h => obtain rfl := eq_of_toNat (d := '\n') h; exact after_slash read b rfl (by decide)
  split
  · next h => obtain rfl := eq_of_toNat (d := '\x0c') h; exact after_slash read b rfl (by decide)
  split
  · next h => obtain rfl := eq_of_toNat (d := '\r') h; exact after_slash read b rfl (by decide)
  · next h h8 h9 h10 h12 h13 =>
    have hc : c.toNat < 0x20 := by omega
    have hu : unitOf c = .unit c.toNat := if_pos ⟨hc, by simp [h8, h9, h10, h12, h13]⟩
    rw [hu]
    exact after_unit read b hc

theorem after_escapes (cs : List Char) (read : List Unit16) (b : Builder) :
    Reader.after ⟨.string read .outside, b⟩ (cs.flatMap escape) =
      some ⟨.string ((cs.map unitOf).reverse ++ read) .outside, b⟩ := by
  induction cs generalizing read with
  | nil => rfl
  | cons c cs ih =>
    rw [List.flatMap_cons, after_append_of_after (after_escape read b c), ih]
    simp

/-- A unit that is no half of a pair stands for its character, whatever follows. -/
theorem pairUnits_unit {n : Nat} (hhigh : isHighSurrogate n = false)
    (hlow : isLowSurrogate n = false) (us : List Unit16) :
    pairUnits (.unit n :: us) = (pairUnits us).map (Char.ofNat n :: ·) := by
  cases us with
  | nil => simp [pairUnits, hhigh, hlow]
  | cons u us => cases u <;> simp only [pairUnits, hhigh, hlow] <;> simp

theorem pairUnits_map_unitOf (cs : List Char) : pairUnits (cs.map unitOf) = some cs := by
  induction cs with
  | nil => rfl
  | cons c cs ih =>
    rw [List.map_cons]
    by_cases hc : c.toNat < 0x20 ∧ c.toNat ∉ [8, 9, 10, 12, 13]
    · have hu : unitOf c = .unit c.toNat := if_pos hc
      have hhigh : isHighSurrogate c.toNat = false := by simp [isHighSurrogate]; omega
      have hlow : isLowSurrogate c.toNat = false := by simp [isLowSurrogate]; omega
      rw [hu, pairUnits_unit hhigh hlow, ih]
      simp
    · have hu : unitOf c = .char c := if_neg hc
      rw [hu, pairUnits, ih]
      rfl

/-- A quoted text is read as the token of that text. -/
theorem after_quoted (s : String) {b b' : Builder} (hb : b.take (.text (some s)) = some b') :
    Reader.after ⟨.between, b⟩ (quoted s) = some ⟨.between, b'⟩ := by
  rw [quoted, after_cons_of_step (step_of_quiet b (t := .string [] .outside) rfl),
    after_append_of_after (after_escapes s.toList [] b)]
  refine after_cons_of_step (step_of_token ?_ hb)
  simp [Scan.step, Scan.inString, pairUnits_map_unitOf]

/-! ### Numbers and words -/

theorem ofDigitChars_le (cs : List Char) (n : Nat) : n ≤ Nat.ofDigitChars 10 cs n := by
  induction cs generalizing n with
  | nil => exact Nat.le_refl n
  | cons c cs ih =>
    rw [Nat.ofDigitChars_cons]
    exact Nat.le_trans (by omega) (ih _)

/-- Digits whose number fits in 64 bits are absorbed whole. -/
theorem absorb_of_lt {cs : List Char} {n : Nat} (h : Nat.ofDigitChars 10 cs n < UInt64.size) :
    absorb n cs = (Nat.ofDigitChars 10 cs n, []) := by
  induction cs generalizing n with
  | nil => rfl
  | cons c cs ih =>
    have hcons : Nat.ofDigitChars 10 (c :: cs) n =
        Nat.ofDigitChars 10 cs (Nat.ofDigitChars 10 [c] n) := by
      rw [Nat.ofDigitChars_cons, Nat.ofDigitChars_cons, Nat.ofDigitChars_nil]
    rw [hcons] at h
    have hlt : Nat.ofDigitChars 10 [c] n < UInt64.size :=
      Nat.lt_of_le_of_lt (ofDigitChars_le cs _) h
    rw [absorb, if_pos hlt, ih h, hcons]

theorem nearestDouble_le (n : Nat) : nearestDouble n ≤ 2 * n := by
  cases n with
  | zero => decide
  | succ n =>
    have hunit : 2 ^ ((n + 1).log2 - 52) ≤ n + 1 :=
      Nat.le_trans (Nat.pow_le_pow_right (by decide) (Nat.sub_le _ _)) (Nat.log2_self_le (by omega))
    have hdiv : (n + 1) / 2 ^ ((n + 1).log2 - 52) * 2 ^ ((n + 1).log2 - 52) ≤ n + 1 :=
      Nat.div_mul_le_self _ _
    simp only [nearestDouble, Nat.pow_eq]
    split
    · rw [Nat.add_mul]; omega
    · omega

/-- A whole number that fits in 64 bits is a double after rounding. -/
theorem isFinite_of_lt {n : Nat} (h : n < UInt64.size) : isFinite n 0 = true := by
  have hround : nearestDouble n < 2 * UInt64.size :=
    Nat.lt_of_le_of_lt (nearestDouble_le n) (by omega)
  have hone : nearestDouble (Nat.pow 10 (0 : Int).toNat) = 1 := by decide
  have hbound : 2 * UInt64.size ≤ beyondDoubles := by decide +kernel
  rw [isFinite]
  split
  · rfl
  · rw [if_neg (by decide), hone, Nat.mul_one]
    exact decide_eq_true (by omega)

theorem isDouble_of_lt {cs : List Char} (h : Nat.ofDigitChars 10 cs 0 < UInt64.size) :
    isDouble cs [] 0 = true := by
  simp only [isDouble, absorb_of_lt h, absorb]
  exact isFinite_of_lt h

theorem spanDigits_of_all {cs : List Char} (h : ∀ c ∈ cs, c.isDigit = true) :
    spanDigits cs = (cs, []) := by
  rw [spanDigits, List.span_eq_takeWhile_dropWhile, List.takeWhile_eq_self_iff.mpr h]
  exact congrArg (cs, ·) (List.dropWhile_eq_nil_iff.mpr h)

/-- The digits of a number that fits in 64 bits are read as that number. -/
theorem unsigned?_toDigits {negative : Bool} {n : Nat} (h : n < UInt64.size)
    (hn : negative = true → n ≠ 0) :
    unsigned? negative (Nat.toDigits 10 n) = some (int (if negative then -(n : Int) else n)) := by
  have hspan : spanDigits (Nat.toDigits 10 n) = (Nat.toDigits 10 n, []) :=
    spanDigits_of_all fun c hc => Nat.isDigit_of_mem_toDigits (by decide) (by decide) hc
  have hvalue : Nat.ofDigitChars 10 (Nat.toDigits 10 n) 0 = n := Nat.ofDigitChars_ten_toDigits
  have hwhole : wholeNumber negative (Nat.toDigits 10 n) =
      int (if negative then -(n : Int) else n) := by
    have hzero : (negative && n == 0) = false := by
      cases negative with
      | false => rfl
      | true => simpa using hn rfl
    simp [wholeNumber, hvalue, hzero, isDouble_of_lt (hvalue ▸ h)]
  simp only [unsigned?, hspan]
  split
  · next h => exact absurd h Nat.toDigits_ne_nil
  · next h =>
    cases n with
    | zero => simp at h
    | succ n => exact absurd (by rw [h]; rfl) (Decimal.head?_toDigits n.succ_pos)
  · rw [scaled?, hwhole]

/-- The whole numbers that are written and read back: those whose magnitude fits in 64 bits. -/
theorem numeral?_intChars {n : Int} (h : n.natAbs < UInt64.size) :
    numeral? (intChars n) = some (int n) := by
  rw [intChars]
  split
  · next hn =>
    rw [numeral?, unsigned?_toDigits h (fun _ => by omega)]
    simp only [if_true]
    congr 2
    omega
  · next hn =>
    have hhead : ∀ cs, Nat.toDigits 10 n.natAbs ≠ '-' :: cs := fun cs hc => by
      have := Nat.isDigit_of_mem_toDigits (b := 10) (n := n.natAbs) (c := '-') (by decide)
        (by decide) (by rw [hc]; exact List.mem_cons_self)
      exact absurd this (by decide)
    rw [numeral?, unsigned?_toDigits h (fun h => by simp at h)]
    · congr 2; simp; omega
    · exact hhead

/-- The characters that can stand after a value: they end a word and a number. -/
def EndsValue (c : Char) : Prop := c = ',' ∨ c = ']' ∨ c = '}'

/-- What follows a value is read after `r` as it is read between tokens in the state `b`: the
last token of the value may still be open in `r`. -/
structure Settles (r : Reader) (b : Builder) : Prop where
  finish? : r.finish? = Reader.finish? ⟨.between, b⟩
  step : ∀ c, EndsValue c → r.step (some c) = Reader.step ⟨.between, b⟩ (some c)

theorem settles_between (b : Builder) : Settles ⟨.between, b⟩ b := ⟨rfl, fun _ _ => rfl⟩

/-- An open word or number settles as the value it denotes. -/
theorem settles_of_finish? {s : Scan} {b b' : Builder} {t : Token}
    (hs : s.finish? = some [t]) (hb : b.take t = some b')
    (hstep : ∀ c, EndsValue c → s.step (some c) = s.endThen c) : Settles ⟨s, b⟩ b' := by
  constructor
  · have hbetween : Scan.finish? .between = some [] := rfl
    simp [Reader.finish?, hs, hb, hbetween, bind, List.foldlM]
  · intro c hc
    have hbetween : Scan.between.step (some c) = Scan.start c := rfl
    simp only [Reader.step, hstep c hc, hbetween, Scan.endThen, hs]
    cases Scan.start c with
    | none => rfl
    | some p => simp [bind, List.foldlM, hb]

theorem settles_number {read : List Char} {b : Builder} {j : Json} {b' : Builder}
    (hj : numeral? read.reverse = some j) (hb : b.take (.literal j) = some b') :
    Settles ⟨.number read, b⟩ b' := by
  refine settles_of_finish? (by simp [Scan.finish?, hj]) hb ?_
  intro c hc
  rcases hc with rfl | rfl | rfl <;> rfl

theorem settles_word {read : List Char} {b : Builder} {j : Json} {b' : Builder}
    (hj : word? read.reverse = some j) (hb : b.take (.literal j) = some b') :
    Settles ⟨.word read, b⟩ b' := by
  refine settles_of_finish? (by simp [Scan.finish?, hj]) hb ?_
  intro c hc
  rcases hc with rfl | rfl | rfl <;> rfl

/-- The characters of a number stay in the number. -/
theorem after_number (cs read : List Char) (b : Builder) (h : ∀ c ∈ cs, c.isDigit = true) :
    Reader.after ⟨.number read, b⟩ cs = some ⟨.number (cs.reverse ++ read), b⟩ := by
  induction cs generalizing read with
  | nil => rfl
  | cons c cs ih =>
    have hc : isNumberChar c = true := by simp [isNumberChar, h c List.mem_cons_self]
    rw [after_cons_of_step (step_of_quiet b (t := .number (c :: read)) (by simp [Scan.step, hc])),
      ih _ fun d hd => h d (List.mem_cons_of_mem _ hd)]
    simp

/-- A number begins with a digit or with a minus sign. -/
theorem step_number {c : Char} (hc : c.isDigit = true ∨ c = '-') :
    Scan.between.step (some c) = some ([], .number [c]) := by
  have hne : ∀ d : Char, d.isDigit = false → d ≠ '-' → c ≠ d := by
    rintro d hd hm rfl
    rcases hc with hc | hc
    · rw [hc] at hd; exact absurd hd (by decide)
    · exact hm hc
  have hblank : isBlank c = false := by
    simp [isBlank, hne ' ' rfl (by decide), hne '\t' rfl (by decide), hne '\n' rfl (by decide),
      hne '\r' rfl (by decide)]
  have hquote : c ≠ '"' := hne '"' rfl (by decide)
  have hnumber : (c.isDigit || c = '-') = true := by simpa using hc
  simp only [Scan.step, Scan.start, hblank, hquote, hnumber, if_true, if_false,
    Bool.false_eq_true]

theorem after_number_start (c : Char) (cs : List Char) (b : Builder)
    (hc : c.isDigit = true ∨ c = '-') (h : ∀ c ∈ cs, c.isDigit = true) :
    Reader.after ⟨.between, b⟩ (c :: cs) = some ⟨.number (c :: cs).reverse, b⟩ := by
  rw [after_cons_of_step (step_of_quiet b (step_number hc)), after_number cs [c] b h]
  simp

theorem after_intChars (n : Int) (b : Builder) :
    Reader.after ⟨.between, b⟩ (intChars n) = some ⟨.number (intChars n).reverse, b⟩ := by
  have hdigits : ∀ c ∈ Nat.toDigits 10 n.natAbs, c.isDigit = true := fun c hc =>
    Nat.isDigit_of_mem_toDigits (by decide) (by decide) hc
  rw [intChars]
  split
  · exact after_number_start '-' _ b (Or.inr rfl) hdigits
  · cases hd : Nat.toDigits 10 n.natAbs with
    | nil => exact absurd hd Nat.toDigits_ne_nil
    | cons c cs =>
      rw [hd] at hdigits
      exact after_number_start c cs b (Or.inl (hdigits c List.mem_cons_self))
        fun d hd => hdigits d (List.mem_cons_of_mem _ hd)

end Custody.Json
