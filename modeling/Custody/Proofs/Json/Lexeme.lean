import Custody.Proofs.Json.Building
import Custody.Proofs.Json.Token

/-!
# Texts with one token

A text with one token is that token between blanks.  Read character by character, this is said of
each state in which the scanner can be: in a number or a word, inside a string, between tokens.

* `Scan.start_cases`, `Scan.outside_cases`: what a character can be, between tokens and in a string.
* `Scan.Running`: numbers and words, which any character ends with which they do not go on.
* `tokens?_nil_iff`: a text without a token is blank.
* `Inside`: how the characters between quotation marks denote the parts of a string.
* `literal_of_tokens?`, `tokens?_number`: **a text whose one token is a number.**
* `string_of_tokens?_iff`: **a text whose one token is a string.**
-/

namespace Custody.Json

/-! ### Blanks and literals -/

/-- Characters that stand between tokens only. -/
def Blank (cs : List Char) : Prop := ∀ c ∈ cs, isBlank c = true

theorem tokens?_cons_eq_some {s : Scan} {c : Option Char} {rest : List (Option Char)}
    {ts : List Token} : tokens? s (c :: rest) = some ts ↔ ∃ done next later,
      s.step c = some (done, next) ∧ tokens? next rest = some later ∧ ts = done ++ later := by
  simp only [tokens?, Option.bind_eq_bind, Option.bind_eq_some_iff, Option.pure_def,
    Option.some.injEq, Prod.exists]
  constructor
  · rintro ⟨done, next, hstep, later, hlater, rfl⟩
    exact ⟨done, next, later, hstep, hlater, rfl⟩
  · rintro ⟨done, next, later, hstep, hlater, rfl⟩
    exact ⟨done, next, hstep, later, hlater, rfl⟩

/-- A character that completes no token is passed over. -/
theorem tokens?_quiet {s next : Scan} {c : Option Char} (h : s.step c = some ([], next))
    (rest : List (Option Char)) : tokens? s (c :: rest) = tokens? next rest := by
  cases hrest : tokens? next rest with
  | none => simp [tokens?, h, hrest, bind]
  | some later => simp [tokens?, h, hrest, bind]

/-- A token that is no value: a bracket, a brace, a comma or a colon. -/
def Token.IsMark : Token → Prop
  | .literal _ | .text _ => False
  | _ => True

namespace Scan

/-- **What a character between tokens can be**: a blank, the beginning of a string, a number or a
word, or a token of its own. -/
theorem start_cases {c : Char} {done : List Token} {next : Scan}
    (h : start c = some (done, next)) :
    (isBlank c = true ∧ done = [] ∧ next = between) ∨
    (c = '"' ∧ done = [] ∧ next = string [] .outside) ∨
    (done = [] ∧ next = number [c]) ∨ (done = [] ∧ next = word [c]) ∨
    (∃ t : Token, t.IsMark ∧ done = [t] ∧ next = between) := by
  unfold start at h
  split at h
  · next hblank =>
    obtain ⟨rfl, rfl⟩ := Prod.mk.inj (Option.some.inj h)
    exact Or.inl ⟨hblank, rfl, rfl⟩
  split at h
  · next hquote =>
    obtain ⟨rfl, rfl⟩ := Prod.mk.inj (Option.some.inj h)
    exact Or.inr (Or.inl ⟨hquote, rfl, rfl⟩)
  split at h
  · obtain ⟨rfl, rfl⟩ := Prod.mk.inj (Option.some.inj h)
    exact Or.inr (Or.inr (Or.inl ⟨rfl, rfl⟩))
  split at h
  · obtain ⟨rfl, rfl⟩ := Prod.mk.inj (Option.some.inj h)
    exact Or.inr (Or.inr (Or.inr (Or.inl ⟨rfl, rfl⟩)))
  · refine Or.inr (Or.inr (Or.inr (Or.inr ?_)))
    split at h
    case h_7 => cases h
    all_goals
      obtain ⟨rfl, rfl⟩ := Prod.mk.inj (Option.some.inj h)
      refine ⟨_, ?_, rfl, rfl⟩
      trivial

theorem endThen_eq_some {s : Scan} {c : Char} {done : List Token} {next : Scan} :
    s.endThen c = some (done, next) ↔ ∃ ended begun, s.finish? = some ended ∧
      start c = some (begun, next) ∧ done = ended ++ begun := by
  unfold endThen
  cases s.finish? with
  | none => simp
  | some ended =>
    cases start c with
    | none => simp
    | some begun =>
      obtain ⟨begun, next'⟩ := begun
      simp only [Option.some.injEq, Prod.mk.injEq]
      constructor
      · rintro ⟨rfl, rfl⟩
        exact ⟨ended, begun, rfl, ⟨rfl, rfl⟩, rfl⟩
      · rintro ⟨_, _, rfl, ⟨rfl, rfl⟩, rfl⟩
        exact ⟨rfl, rfl⟩

/-- **What a character inside a string can be**, where no escape has begun. -/
theorem outside_cases {read : List Unit16} {c : Option Char} {done : List Token} {next : Scan}
    (h : step (.string read .outside) c = some (done, next)) :
    (c = some '"' ∧ done = [.text ((pairUnits read.reverse).map String.ofList)] ∧
      next = .between) ∨
    (c = some '\\' ∧ done = [] ∧ next = .string read .slash) ∨
    (∃ d, c = some d ∧ d ≠ '"' ∧ d ≠ '\\' ∧ 0x20 ≤ d.toNat ∧ done = [] ∧
      next = .string (.char d :: read) .outside) ∨
    (c = none ∧ done = [] ∧ next = .string (.broken :: read) .outside) := by
  cases c with
  | none =>
    obtain ⟨rfl, rfl⟩ := Prod.mk.inj (Option.some.inj h)
    exact Or.inr (Or.inr (Or.inr ⟨rfl, rfl, rfl⟩))
  | some d =>
    simp only [step, inString] at h
    split at h
    · next hquote =>
      obtain ⟨rfl, rfl⟩ := Prod.mk.inj (Option.some.inj h)
      exact Or.inl ⟨by rw [hquote], rfl, rfl⟩
    split at h
    · next hslash =>
      obtain ⟨rfl, rfl⟩ := Prod.mk.inj (Option.some.inj h)
      exact Or.inr (Or.inl ⟨by rw [hslash], rfl, rfl⟩)
    split at h
    · cases h
    · next hquote hslash hcontrol =>
      obtain ⟨rfl, rfl⟩ := Prod.mk.inj (Option.some.inj h)
      exact Or.inr (Or.inr (Or.inl ⟨d, rfl, hquote, hslash, Nat.not_lt.mp hcontrol, rfl, rfl⟩))

/-- A character inside a string completes that string or stays in it. -/
theorem string_cases {read : List Unit16} {escape : Escape} {c : Option Char} {done : List Token}
    {next : Scan} (h : step (.string read escape) c = some (done, next)) :
    (∃ s, done = [.text s]) ∨ done = [] ∧ ∃ read' escape', next = .string read' escape' := by
  cases escape with
  | outside =>
    rcases outside_cases h with ⟨-, rfl, -⟩ | ⟨-, rfl, rfl⟩ | ⟨d, -, -, -, -, rfl, rfl⟩ |
      ⟨-, rfl, rfl⟩
    · exact Or.inl ⟨_, rfl⟩
    · exact Or.inr ⟨rfl, _, _, rfl⟩
    · exact Or.inr ⟨rfl, _, _, rfl⟩
    · exact Or.inr ⟨rfl, _, _, rfl⟩
  | slash =>
    cases c with
    | none => cases h
    | some c =>
      simp only [step, inString] at h
      split at h
      · obtain ⟨rfl, rfl⟩ := Prod.mk.inj (Option.some.inj h)
        exact Or.inr ⟨rfl, _, _, rfl⟩
      · obtain ⟨d, -, hd⟩ := Option.map_eq_some_iff.mp h
        obtain ⟨rfl, rfl⟩ := Prod.mk.inj hd
        exact Or.inr ⟨rfl, _, _, rfl⟩
  | hex toCome value =>
    cases c with
    | none => cases h
    | some c =>
      simp only [step, inString] at h
      obtain ⟨d, -, hd⟩ := Option.map_eq_some_iff.mp h
      split at hd
      · obtain ⟨rfl, rfl⟩ := Prod.mk.inj hd
        exact Or.inr ⟨rfl, _, _, rfl⟩
      · obtain ⟨rfl, rfl⟩ := Prod.mk.inj hd
        exact Or.inr ⟨rfl, _, _, rfl⟩

/-- The states in which a token goes on with characters of one class, so that any other character
ends it. -/
structure Running (state : List Char → Scan) (goesOn : Char → Bool)
    (literal? : List Char → Option Json) : Prop where
  step_none : ∀ read, (state read).step none = none
  step_some : ∀ read c, (state read).step (some c) =
    if goesOn c then some ([], state (c :: read)) else (state read).endThen c
  finish? : ∀ read, (state read).finish? = (literal? read.reverse).map fun j => [.literal j]

theorem running_number : Running .number isNumberChar numeral? :=
  ⟨fun _ => rfl, fun _ _ => rfl, fun _ => rfl⟩

theorem running_word : Running .word Char.isLower word? :=
  ⟨fun _ => rfl, fun _ _ => rfl, fun _ => rfl⟩

namespace Running

variable {state : List Char → Scan} {goesOn : Char → Bool} {literal? : List Char → Option Json}

theorem finish?_ne_nil (h : Running state goesOn literal?) (read : List Char) :
    (state read).finish? ≠ some [] := by
  rw [h.finish?]
  cases literal? read.reverse <;> simp

/-- The end of the token is a token. -/
theorem step_ne (h : Running state goesOn literal?) (read : List Char) (c : Option Char) :
    (state read).step c ≠ some ([], between) := by
  intro hstep
  cases c with
  | none =>
    rw [h.step_none] at hstep
    cases hstep
  | some c =>
    rw [h.step_some] at hstep
    split at hstep
    · have hstate : state (c :: read) = between := (Prod.mk.inj (Option.some.inj hstep)).2
      exact h.finish?_ne_nil (c :: read) (by rw [hstate]; rfl)
    · obtain ⟨ended, begun, hended, -, happend⟩ := endThen_eq_some.mp hstep
      obtain ⟨rfl, -⟩ := List.nil_eq_append_iff.mp happend
      exact h.finish?_ne_nil read hended

end Running

/-- Only a blank between tokens leads back there and completes no token. -/
theorem blank_of_step {s : Scan} {c : Option Char} (h : s.step c = some ([], between)) :
    s = between ∧ ∃ b, c = some b ∧ isBlank b = true := by
  cases s with
  | between =>
    cases c with
    | none => cases h
    | some b =>
      rcases start_cases h with ⟨hb, -⟩ | ⟨-, -, h⟩ | ⟨-, h⟩ | ⟨-, h⟩ | ⟨t, -, h, -⟩
      · exact ⟨rfl, b, rfl, hb⟩
      · cases h
      · cases h
      · cases h
      · cases h
  | word read => exact absurd h (running_word.step_ne read c)
  | number read => exact absurd h (running_number.step_ne read c)
  | string read escape =>
    rcases string_cases h with ⟨s, hs⟩ | ⟨-, read', escape', hnext⟩
    · cases hs
    · cases hnext

end Scan

theorem tokens?_blank {cs : List Char} (h : Blank cs) (rest : List (Option Char)) :
    tokens? .between (cs.map some ++ rest) = tokens? .between rest := by
  induction cs with
  | nil => rfl
  | cons c cs ih =>
    obtain ⟨hc, hcs⟩ := List.forall_mem_cons.mp h
    have hstep : Scan.step .between (some c) = some ([], .between) := by
      simp [Scan.step, Scan.start, hc]
    rw [List.map_cons, List.cons_append, tokens?_quiet hstep, ih hcs]

/-- **A text without a token is blank.** -/
theorem tokens?_nil_iff {s : Scan} {rest : List (Option Char)} :
    tokens? s rest = some [] ↔ s = .between ∧ ∃ cs, rest = cs.map some ∧ Blank cs := by
  constructor
  · intro h
    induction rest generalizing s with
    | nil =>
      refine ⟨?_, [], rfl, by simp [Blank]⟩
      change s.finish? = some [] at h
      cases s with
      | between => rfl
      | word read => exact absurd h (Scan.running_word.finish?_ne_nil read)
      | number read => exact absurd h (Scan.running_number.finish?_ne_nil read)
      | string read escape => cases h
    | cons c rest ih =>
      obtain ⟨done, next, later, hstep, hlater, hnil⟩ := tokens?_cons_eq_some.mp h
      obtain ⟨rfl, rfl⟩ := List.nil_eq_append_iff.mp hnil
      obtain ⟨rfl, cs, rfl, hcs⟩ := ih hlater
      obtain ⟨rfl, b, rfl, hb⟩ := Scan.blank_of_step hstep
      exact ⟨rfl, b :: cs, rfl, List.forall_mem_cons.mpr ⟨hb, hcs⟩⟩
  · rintro ⟨rfl, cs, rfl, hcs⟩
    have hall := tokens?_blank hcs []
    rw [List.append_nil] at hall
    exact hall

/-- A character that ends a word or a number, if no other token follows, is a blank among blanks. -/
theorem blank_of_endThen {s : Scan} {c : Char} {done later : List Token} {next : Scan}
    {rest : List (Option Char)} {t : Token} (hfinish : s.finish? ≠ some [])
    (hstep : s.endThen c = some (done, next)) (hlater : tokens? next rest = some later)
    (ht : [t] = done ++ later) :
    s.finish? = some [t] ∧ ∃ cs, some c :: rest = cs.map some ∧ Blank cs := by
  obtain ⟨ended, begun, hended, hbegun, rfl⟩ := Scan.endThen_eq_some.mp hstep
  rw [List.append_assoc] at ht
  cases ended with
  | nil => exact absurd hended hfinish
  | cons u ended =>
    obtain ⟨rfl, hnil⟩ := List.cons.inj ht
    obtain ⟨rfl, hbare⟩ := List.nil_eq_append_iff.mp hnil
    obtain ⟨rfl, rfl⟩ := List.append_eq_nil_iff.mp hbare
    have hquiet : Scan.step .between (some c) = some ([], next) := hbegun
    have hnone : tokens? .between (some c :: rest) = some [] :=
      (tokens?_quiet hquiet rest).trans hlater
    exact ⟨hended, (tokens?_nil_iff.mp hnone).2⟩

/-- A token that goes on and is the only one ends before blanks. -/
theorem Scan.Running.of_tokens? {state : List Char → Scan} {goesOn : Char → Bool}
    {literal? : List Char → Option Json} (hstate : Running state goesOn literal?)
    {read : List Char} {rest : List (Option Char)} {t : Token}
    (h : tokens? (state read) rest = some [t]) : ∃ w after j, rest = (w ++ after).map some ∧
      Blank after ∧ literal? (read.reverse ++ w) = some j ∧ t = .literal j := by
  -- here the token ends
  have hends : ∀ {read rest} after, (state read).finish? = some [t] → rest = after.map some →
      Blank after → ∃ w after j, rest = (w ++ after).map some ∧ Blank after ∧
        literal? (read.reverse ++ w) = some j ∧ t = .literal j := by
    intro read rest after hfinish hrest hafter
    rw [hstate.finish?] at hfinish
    obtain ⟨j, hj, ht⟩ := Option.map_eq_some_iff.mp hfinish
    refine ⟨[], after, j, hrest, hafter, ?_, (List.singleton_inj.mp ht).symm⟩
    rw [List.append_nil]
    exact hj
  induction rest generalizing read with
  | nil => exact hends [] h rfl (by simp [Blank])
  | cons c rest ih =>
    obtain ⟨done, next, later, hstep, hlater, ht⟩ := tokens?_cons_eq_some.mp h
    cases c with
    | none =>
      rw [hstate.step_none] at hstep
      cases hstep
    | some c =>
      rw [hstate.step_some] at hstep
      split at hstep
      · obtain ⟨rfl, rfl⟩ := Prod.mk.inj (Option.some.inj hstep)
        obtain rfl : later = [t] := ht.symm
        obtain ⟨w, after, j, rfl, hafter, hj, rfl⟩ := ih hlater
        refine ⟨c :: w, after, j, rfl, hafter, ?_, rfl⟩
        rw [List.reverse_cons, List.append_assoc] at hj
        exact hj
      · obtain ⟨hfinish, after, hrest, hafter⟩ :=
          blank_of_endThen (hstate.finish?_ne_nil read) hstep hlater ht
        exact hends after hfinish hrest hafter

/-- The digits of a number stay in the number, and blanks end it. -/
theorem tokens?_digits {ds read : List Char} (h : ∀ c ∈ ds, c.isDigit = true)
    (rest : List (Option Char)) :
    tokens? (.number read) (ds.map some ++ rest) = tokens? (.number (ds.reverse ++ read)) rest := by
  induction ds generalizing read with
  | nil => rfl
  | cons d ds ih =>
    obtain ⟨hd, hds⟩ := List.forall_mem_cons.mp h
    have hstep : Scan.step (.number read) (some d) = some ([], .number (d :: read)) := by
      simp [Scan.step, isNumberChar, hd]
    rw [List.map_cons, List.cons_append, tokens?_quiet hstep, ih hds]
    simp

theorem tokens?_number_end {read after : List Char} {j : Json} (hafter : Blank after)
    (hj : numeral? read.reverse = some j) :
    tokens? (.number read) (after.map some) = some [.literal j] := by
  have hfinish : Scan.finish? (.number read) = some [.literal j] := by
    simp [Scan.finish?, hj]
  cases after with
  | nil => exact hfinish
  | cons b after =>
    obtain ⟨hb, hafter⟩ := List.forall_mem_cons.mp hafter
    have hends : isNumberChar b = false := by
      simp only [isBlank, Bool.or_eq_true, decide_eq_true_eq] at hb
      rcases hb with ((rfl | rfl) | rfl) | rfl <;> rfl
    have hstart : Scan.start b = some ([], .between) := by
      simp [Scan.start, hb]
    have hstep : Scan.step (.number read) (some b) = some ([.literal j], .between) := by
      simp only [Scan.step, hends]
      exact Scan.endThen_eq_some.mpr ⟨_, _, hfinish, hstart, rfl⟩
    exact tokens?_cons_eq_some.mpr
      ⟨_, _, [], hstep, tokens?_nil_iff.mpr ⟨rfl, after, rfl, hafter⟩, rfl⟩

/-! ### Strings -/

/-- The number that hexadecimal digits denote after `value`. -/
def hexNumber? (value : Nat) : List Char → Option Nat
  | [] => some value
  | c :: cs => (hexValue? c).bind fun d => hexNumber? (value * 16 + d) cs

/-- How the characters between quotation marks denote the parts of a string. -/
inductive Inside : List Char → List Unit16 → Prop
  | nil : Inside [] []
  /-- A character that stands for itself. -/
  | char {c : Char} {cs : List Char} {us : List Unit16} : c ≠ '"' → c ≠ '\\' → 0x20 ≤ c.toNat →
      Inside cs us → Inside (c :: cs) (.char c :: us)
  /-- A character with an escape of its own. -/
  | short {c d : Char} {cs : List Char} {us : List Unit16} : shortEscape? c = some d →
      Inside cs us → Inside ('\\' :: c :: cs) (.char d :: us)
  /-- A unit by its four hexadecimal digits. -/
  | unit {hex cs : List Char} {n : Nat} {us : List Unit16} : hex.length = 4 →
      hexNumber? 0 hex = some n → Inside cs us →
      Inside ('\\' :: 'u' :: (hex ++ cs)) (.unit n :: us)

theorem tokens?_hex {hex : List Char} {value n : Nat} (hne : hex ≠ [])
    (hn : hexNumber? value hex = some n) (read : List Unit16) (rest : List (Option Char)) :
    tokens? (.string read (.hex hex.length value)) (hex.map some ++ rest) =
      tokens? (.string (.unit n :: read) .outside) rest := by
  induction hex generalizing value with
  | nil => exact absurd rfl hne
  | cons c cs ih =>
    obtain ⟨d, hd, hn⟩ := Option.bind_eq_some_iff.mp hn
    rw [List.map_cons, List.cons_append]
    cases cs with
    | nil =>
      obtain rfl := Option.some.inj hn
      exact tokens?_quiet (by simp [Scan.step, Scan.inString, hd]) rest
    | cons c' cs =>
      have hstep : Scan.step (.string read (.hex (c :: c' :: cs).length value)) (some c) =
          some ([], .string read (.hex (c' :: cs).length (value * 16 + d))) := by
        simp [Scan.step, Scan.inString, hd]
      rw [tokens?_quiet hstep]
      exact ih (List.cons_ne_nil _ _) hn

theorem hexDigit_of_tokens? {toCome value : Nat} {read : List Unit16}
    {rest : List (Option Char)} {ts : List Token}
    (h : tokens? (.string read (.hex toCome value)) rest = some ts) :
    ∃ c d later, rest = some c :: later ∧ hexValue? c = some d ∧
      tokens? (if toCome ≤ 1 then .string (.unit (value * 16 + d) :: read) .outside
        else .string read (.hex (toCome - 1) (value * 16 + d))) later = some ts := by
  cases rest with
  | nil => cases h
  | cons c rest =>
    obtain ⟨done, next, later, hstep, hlater, rfl⟩ := tokens?_cons_eq_some.mp h
    cases c with
    | none => cases hstep
    | some c =>
      simp only [Scan.step, Scan.inString] at hstep
      obtain ⟨d, hd, hnext⟩ := Option.map_eq_some_iff.mp hstep
      refine ⟨c, d, rest, rfl, hd, ?_⟩
      split at hnext
      · next hlast =>
        obtain ⟨rfl, rfl⟩ := Prod.mk.inj hnext
        rw [if_pos hlast]
        exact hlater
      · next hmore =>
        obtain ⟨rfl, rfl⟩ := Prod.mk.inj hnext
        rw [if_neg hmore]
        exact hlater

theorem hex_of_tokens? {toCome value : Nat} {read : List Unit16} {rest : List (Option Char)}
    {ts : List Token} (h : tokens? (.string read (.hex (toCome + 1) value)) rest = some ts) :
    ∃ hex n later, rest = hex.map some ++ later ∧ hex.length = toCome + 1 ∧
      hexNumber? value hex = some n ∧
      tokens? (.string (.unit n :: read) .outside) later = some ts := by
  induction toCome generalizing value rest with
  | zero =>
    obtain ⟨c, d, later, rfl, hd, hlater⟩ := hexDigit_of_tokens? h
    rw [if_pos (by omega)] at hlater
    refine ⟨[c], value * 16 + d, later, rfl, rfl, ?_, hlater⟩
    simp [hexNumber?, hd]
  | succ toCome ih =>
    obtain ⟨c, d, later, rfl, hd, hlater⟩ := hexDigit_of_tokens? h
    rw [if_neg (by omega)] at hlater
    obtain ⟨hex, n, later, rfl, hlength, hn, hlater⟩ := ih hlater
    refine ⟨c :: hex, n, later, rfl, by simp [hlength], ?_, hlater⟩
    rw [hexNumber?, hd]
    exact hn

theorem broken_notMem_of_pairUnits {us : List Unit16} {cs : List Char}
    (h : pairUnits us = some cs) : Unit16.broken ∉ us := by
  fun_induction pairUnits us generalizing cs with
  | case1 => exact List.not_mem_nil
  | case3 | case5 | case7 => cases h
  | case2 _ _ ih | case4 _ _ _ _ ih | case6 _ _ _ _ _ ih | case8 _ _ _ _ ih =>
    obtain ⟨cs', hcs, -⟩ := Option.map_eq_some_iff.mp h
    simpa using ih hcs

theorem tokens?_inside {inside : List Char} {us : List Unit16} (h : Inside inside us)
    (read : List Unit16) (rest : List (Option Char)) :
    tokens? (.string read .outside) (inside.map some ++ rest) =
      tokens? (.string (us.reverse ++ read) .outside) rest := by
  induction h generalizing read with
  | nil => rfl
  | @char c cs us hquote hslash hcontrol _ ih =>
    have hstep : Scan.step (.string read .outside) (some c) =
        some ([], .string (.char c :: read) .outside) := by
      simp [Scan.step, Scan.inString, hquote, hslash, Nat.not_lt.mpr hcontrol]
    rw [List.map_cons, List.cons_append, tokens?_quiet hstep, ih]
    simp
  | @short c d cs us hshort _ ih =>
    have hu : c ≠ 'u' := by
      rintro rfl
      cases hshort
    have hslash : Scan.step (.string read .outside) (some '\\') =
        some ([], .string read .slash) := rfl
    have hstep : Scan.step (.string read .slash) (some c) =
        some ([], .string (.char d :: read) .outside) := by
      simp [Scan.step, Scan.inString, hshort, hu]
    rw [List.map_cons, List.cons_append, tokens?_quiet hslash, List.map_cons, List.cons_append,
      tokens?_quiet hstep, ih]
    simp
  | @unit hex cs n us hlength hn _ ih =>
    have hslash : Scan.step (.string read .outside) (some '\\') =
        some ([], .string read .slash) := rfl
    have hstep : Scan.step (.string read .slash) (some 'u') =
        some ([], .string read (.hex hex.length 0)) := by
      rw [hlength]
      rfl
    have hne : hex ≠ [] := List.ne_nil_of_length_eq_add_one hlength
    rw [List.map_cons, List.cons_append, tokens?_quiet hslash, List.map_cons, List.cons_append,
      tokens?_quiet hstep, List.map_append, List.append_assoc, tokens?_hex hne hn, ih]
    simp

theorem escape_of_tokens? {read : List Unit16} {rest : List (Option Char)} {ts : List Token}
    (h : tokens? (.string read .slash) rest = some ts) :
    (∃ later, rest = some 'u' :: later ∧
      tokens? (.string read (.hex 4 0)) later = some ts) ∨
    ∃ c d later, rest = some c :: later ∧ shortEscape? c = some d ∧
      tokens? (.string (.char d :: read) .outside) later = some ts := by
  cases rest with
  | nil => cases h
  | cons c rest =>
    obtain ⟨done, next, later, hstep, hlater, rfl⟩ := tokens?_cons_eq_some.mp h
    cases c with
    | none => cases hstep
    | some c =>
      simp only [Scan.step, Scan.inString] at hstep
      split at hstep
      · next hu =>
        obtain ⟨rfl, rfl⟩ := Prod.mk.inj (Option.some.inj hstep)
        exact Or.inl ⟨rest, by rw [hu], hlater⟩
      · obtain ⟨d, hd, hnext⟩ := Option.map_eq_some_iff.mp hstep
        obtain ⟨rfl, rfl⟩ := Prod.mk.inj hnext
        exact Or.inr ⟨c, d, rest, rfl, hd, hlater⟩

theorem inside_of_tokens? {read : List Unit16} {rest : List (Option Char)} {s : String}
    (h : tokens? (.string read .outside) rest = some [.text (some s)]) :
    ∃ inside us after, rest = (inside ++ '"' :: after).map some ∧ Blank after ∧
      Inside inside us ∧ pairUnits (read.reverse ++ us) = some s.toList := by
  induction hn : rest.length using Nat.strongRecOn generalizing rest read with
  | ind n ih =>
    subst hn
    cases rest with
    | nil => cases h
    | cons c rest =>
      obtain ⟨done, next, later, hstep, hlater, ht⟩ := tokens?_cons_eq_some.mp h
      rcases Scan.outside_cases hstep with ⟨rfl, rfl, rfl⟩ | ⟨rfl, rfl, rfl⟩ |
        ⟨d, rfl, hquote, hslash, hcontrol, rfl, rfl⟩ | ⟨rfl, rfl, rfl⟩
      · -- the end of the string
        obtain ⟨htext, rfl⟩ := List.cons.inj ht
        obtain ⟨-, after, rfl, hafter⟩ := tokens?_nil_iff.mp hlater
        obtain ⟨cs, hcs, hs⟩ := Option.map_eq_some_iff.mp (Token.text.inj htext).symm
        refine ⟨[], [], after, rfl, hafter, .nil, ?_⟩
        rw [List.append_nil, hcs, ← hs, String.toList_ofList]
      · -- an escape
        obtain rfl : later = [.text (some s)] := ht.symm
        rcases escape_of_tokens? hlater with ⟨more, rfl, hmore⟩ | ⟨c, d, more, rfl, hd, hmore⟩
        · obtain ⟨hex, n, tail, rfl, hlength, hvalue, htail⟩ := hex_of_tokens? hmore
          obtain ⟨inside, us, after, rfl, hafter, hinside, hpairs⟩ :=
            ih _ (by simp only [List.length_cons, List.length_append]; omega) htail rfl
          refine ⟨'\\' :: 'u' :: (hex ++ inside), .unit n :: us, after, by simp, hafter,
            .unit hlength hvalue hinside, ?_⟩
          simpa using hpairs
        · obtain ⟨inside, us, after, rfl, hafter, hinside, hpairs⟩ :=
            ih _ (by simp only [List.length_cons]; omega) hmore rfl
          refine ⟨'\\' :: c :: inside, .char d :: us, after, rfl, hafter, .short hd hinside, ?_⟩
          simpa using hpairs
      · -- a character that stands for itself
        obtain rfl : later = [.text (some s)] := ht.symm
        obtain ⟨inside, us, after, rfl, hafter, hinside, hpairs⟩ :=
          ih _ (by simp only [List.length_cons]; omega) hlater rfl
        refine ⟨d :: inside, .char d :: us, after, rfl, hafter,
          .char hquote hslash hcontrol hinside, ?_⟩
        simpa using hpairs
      · -- bytes that are no character, with which the string denotes no text
        obtain rfl : later = [.text (some s)] := ht.symm
        obtain ⟨inside, us, after, -, -, -, hpairs⟩ :=
          ih _ (by simp only [List.length_cons]; omega) hlater rfl
        exact absurd (by simp) (broken_notMem_of_pairUnits hpairs)

/-- **A text, from the inside of a string on, whose one token is that string.** -/
theorem text_of_tokens?_iff {read : List Unit16} {rest : List (Option Char)} {s : String} :
    tokens? (.string read .outside) rest = some [.text (some s)] ↔
      ∃ inside us after, rest = (inside ++ '"' :: after).map some ∧ Blank after ∧
        Inside inside us ∧ pairUnits (read.reverse ++ us) = some s.toList := by
  refine ⟨inside_of_tokens?, ?_⟩
  rintro ⟨inside, us, after, rfl, hafter, hinside, hpairs⟩
  rw [List.map_append, tokens?_inside hinside, List.map_cons]
  refine tokens?_cons_eq_some.mpr ⟨_, _, [], rfl, tokens?_nil_iff.mpr ⟨rfl, after, rfl, hafter⟩, ?_⟩
  rw [List.reverse_append, List.reverse_reverse, hpairs]
  simp

/-- Whatever is read of a string, its token is a text. -/
theorem text_of_tokens? {read : List Unit16} {escape : Escape} {rest : List (Option Char)}
    {t : Token} {ts : List Token} (h : tokens? (.string read escape) rest = some (t :: ts)) :
    ∃ s, t = .text s := by
  induction rest generalizing read escape with
  | nil => cases h
  | cons c rest ih =>
    obtain ⟨done, next, later, hc, hlater, ht⟩ := tokens?_cons_eq_some.mp h
    rcases Scan.string_cases hc with ⟨s, rfl⟩ | ⟨rfl, read', escape', rfl⟩
    · exact ⟨s, (List.cons.inj ht).1⟩
    · obtain rfl : later = t :: ts := ht.symm
      exact ih hlater

/-! ### A text with one token -/

/-- How a text goes on from the first character that is no blank, if it has one token. -/
inductive Begun (t : Token) : List (Option Char) → Prop
  | string {rest : List (Option Char)} : tokens? (.string [] .outside) rest = some [t] →
      Begun t (some '"' :: rest)
  | number {c : Char} {rest : List (Option Char)} : tokens? (.number [c]) rest = some [t] →
      Begun t (some c :: rest)
  | word {c : Char} {rest : List (Option Char)} : tokens? (.word [c]) rest = some [t] →
      Begun t (some c :: rest)
  | mark {rest : List (Option Char)} : t.IsMark → Begun t rest

theorem begun_of_tokens? {pieces : List (Option Char)} {t : Token}
    (h : tokens? .between pieces = some [t]) :
    ∃ before rest, pieces = before.map some ++ rest ∧ Blank before ∧ Begun t rest := by
  induction pieces with
  | nil => cases h
  | cons c rest ih =>
    obtain ⟨done, next, later, hstep, hlater, ht⟩ := tokens?_cons_eq_some.mp h
    cases c with
    | none => cases hstep
    | some c =>
      rcases Scan.start_cases hstep with ⟨hc, rfl, rfl⟩ | ⟨rfl, rfl, rfl⟩ | ⟨rfl, rfl⟩ |
        ⟨rfl, rfl⟩ | ⟨u, hmark, rfl, rfl⟩
      · obtain rfl : later = [t] := ht.symm
        obtain ⟨before, rest, rfl, hbefore, hbegun⟩ := ih hlater
        exact ⟨c :: before, rest, rfl, List.forall_mem_cons.mpr ⟨hc, hbefore⟩, hbegun⟩
      · obtain rfl : later = [t] := ht.symm
        exact ⟨[], _, rfl, by simp [Blank], .string hlater⟩
      · obtain rfl : later = [t] := ht.symm
        exact ⟨[], _, rfl, by simp [Blank], .number hlater⟩
      · obtain rfl : later = [t] := ht.symm
        exact ⟨[], _, rfl, by simp [Blank], .word hlater⟩
      · obtain ⟨rfl, -⟩ := List.cons.inj ht
        exact ⟨[], _, rfl, by simp [Blank], .mark hmark⟩

/-- **A text whose one token is a literal**: a number between blanks, or a word. -/
theorem literal_of_tokens? {pieces : List (Option Char)} {j : Json}
    (h : tokens? .between pieces = some [.literal j]) :
    (∃ before w after, pieces = (before ++ (w ++ after)).map some ∧ Blank before ∧ Blank after ∧
      numeral? w = some j) ∨ ∃ w, word? w = some j := by
  obtain ⟨before, rest, rfl, hbefore, hbegun⟩ := begun_of_tokens? h
  cases hbegun with
  | string hrest =>
    obtain ⟨s, hs⟩ := text_of_tokens? hrest
    cases hs
  | @number c rest hrest =>
    obtain ⟨w, after, k, rfl, hafter, hk, hj⟩ := Scan.running_number.of_tokens? hrest
    obtain rfl := Token.literal.inj hj
    exact Or.inl ⟨before, c :: w, after, by simp, hbefore, hafter, hk⟩
  | word hrest =>
    obtain ⟨w, -, k, -, -, hk, hj⟩ := Scan.running_word.of_tokens? hrest
    obtain rfl := Token.literal.inj hj
    exact Or.inr ⟨_, hk⟩
  | mark hmark => exact hmark.elim

/-- **Digits between blanks are one token**, if they are a number. -/
theorem tokens?_number {before ds after : List Char} {j : Json} (hbefore : Blank before)
    (hafter : Blank after) (hds : ∀ c ∈ ds, c.isDigit = true) (hj : numeral? ds = some j) :
    tokens? .between ((before ++ (ds ++ after)).map some) = some [.literal j] := by
  cases ds with
  | nil => cases hj
  | cons d ds =>
    obtain ⟨hd, hds⟩ := List.forall_mem_cons.mp hds
    rw [List.map_append, tokens?_blank hbefore, List.cons_append, List.map_cons,
      tokens?_quiet (step_number (Or.inl hd)), List.map_append, tokens?_digits hds]
    exact tokens?_number_end hafter (by simpa using hj)

/-- **A text whose one token is a string**: the string between blanks. -/
theorem string_of_tokens?_iff {pieces : List (Option Char)} {s : String} :
    tokens? .between pieces = some [.text (some s)] ↔
      ∃ before inside us after, pieces = (before ++ ('"' :: (inside ++ '"' :: after))).map some ∧
        Blank before ∧ Blank after ∧ Inside inside us ∧ pairUnits us = some s.toList := by
  constructor
  · intro h
    obtain ⟨before, rest, rfl, hbefore, hbegun⟩ := begun_of_tokens? h
    cases hbegun with
    | string hrest =>
      obtain ⟨inside, us, after, rfl, hafter, hinside, hpairs⟩ := inside_of_tokens? hrest
      exact ⟨before, inside, us, after, by simp, hbefore, hafter, hinside, hpairs⟩
    | number hrest =>
      obtain ⟨w, after, k, -, -, -, hk⟩ := Scan.running_number.of_tokens? hrest
      cases hk
    | word hrest =>
      obtain ⟨w, after, k, -, -, -, hk⟩ := Scan.running_word.of_tokens? hrest
      cases hk
    | mark hmark => exact hmark.elim
  · rintro ⟨before, inside, us, after, rfl, hbefore, hafter, hinside, hpairs⟩
    have hquote : Scan.step .between (some '"') = some ([], .string [] .outside) := rfl
    rw [List.map_append, tokens?_blank hbefore, List.map_cons, tokens?_quiet hquote]
    exact text_of_tokens?_iff.mpr ⟨inside, us, after, rfl, hafter, hinside, hpairs⟩

end Custody.Json
