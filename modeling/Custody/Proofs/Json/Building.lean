import Custody.Json.Parser

/-!
# Scanning and building

The reader scans a text for tokens and builds a value from the tokens as they come.  The two can be
taken apart: first all tokens of the text, then the value that they build.  And a value that is no
container is built from one token.

* `tokens?`: the tokens of a text.
* `parsePieces?_eq`: **the value of a text is built from the tokens of the text.**
* `Builder.Enclosed.build?`: once a container is open, a container comes of it.
* `tokens_of_build?`: **a value that is no container is built from one token.**
-/

namespace Custody.Json

/-! ### Scanning and building -/

/-- The tokens of a text, from a state of the scanner on. -/
def tokens? : Scan → List (Option Char) → Option (List Token)
  | s, [] => s.finish?
  | s, c :: rest => do
    let (done, next) ← s.step c
    return done ++ (← tokens? next rest)

namespace Builder

/-- The value that is complete, if no container is open. -/
def value? : Builder → Option Json
  | ⟨[], .complete j⟩ => some j
  | _ => none

/-- The value that tokens build. -/
def build? (b : Builder) (ts : List Token) : Option Json := (ts.foldlM take b).bind value?

theorem build?_nil (b : Builder) : b.build? [] = b.value? := rfl

theorem build?_cons (b : Builder) (t : Token) (ts : List Token) :
    b.build? (t :: ts) = (b.take t).bind fun b => b.build? ts := by
  rw [build?, List.foldlM_cons]
  exact Option.bind_assoc _ _ _

theorem build?_append (b : Builder) (ts us : List Token) :
    b.build? (ts ++ us) = (ts.foldlM take b).bind fun b => b.build? us := by
  rw [build?, List.foldlM_append]
  exact Option.bind_assoc _ _ _

end Builder

theorem foldlM_step_eq (pieces : List (Option Char)) (s : Scan) (b : Builder) :
    (pieces.foldlM Reader.step ⟨s, b⟩).bind Reader.finish? = (tokens? s pieces).bind b.build? := by
  induction pieces generalizing s b with
  | nil =>
    show Reader.finish? ⟨s, b⟩ = s.finish?.bind b.build?
    cases hfinish : s.finish? with
    | none => simp [Reader.finish?, hfinish, bind]
    | some done =>
      simp only [Reader.finish?, hfinish, bind, Option.bind_some, Builder.build?]
      rfl
  | cons c rest ih =>
    cases hstep : s.step c with
    | none => simp [Reader.step, tokens?, hstep, bind]
    | some step =>
      obtain ⟨done, next⟩ := step
      cases hdone : done.foldlM Builder.take b with
      | none =>
        cases hrest : tokens? next rest with
        | none => simp [Reader.step, tokens?, hstep, hdone, hrest, bind]
        | some later =>
          simp [Reader.step, tokens?, hstep, hdone, hrest, Builder.build?_append, bind]
      | some b' =>
        have hread : Reader.step ⟨s, b⟩ c = some ⟨next, b'⟩ := by
          simp [Reader.step, hstep, hdone, bind]
        rw [List.foldlM_cons, hread]
        refine (ih next b').trans ?_
        cases hrest : tokens? next rest with
        | none => simp [tokens?, hstep, hrest, bind]
        | some later => simp [tokens?, hstep, hdone, hrest, Builder.build?_append, bind]

/-- **The value of a text is built from the tokens of the text.** -/
theorem parsePieces?_eq (pieces : List (Option Char)) :
    parsePieces? pieces = (tokens? .between pieces).bind (Builder.build? ⟨[], .value⟩) :=
  foldlM_step_eq pieces .between ⟨[], .value⟩

/-! ### Values of one token -/

/-- Whether the value is a container or cannot be read. -/
def isCompound : Json → Bool
  | list _ | object _ | unreadable => true
  | _ => false

namespace Builder

/-- A container is open, or the value that is complete was one. -/
def Enclosed (b : Builder) : Prop :=
  b.stack ≠ [] ∨ ∃ j, b.position = .complete j ∧ isCompound j = true

theorem enclosed_close (below : List Frame) {j : Json} (h : isCompound j = true) :
    (close below j).Enclosed := by
  refine Or.inr ⟨_, rfl, ?_⟩
  split
  · exact h
  · rfl

theorem isCompound_objectOf (members : List (Option String × Json)) :
    isCompound (objectOf members) = true := by
  rw [objectOf]
  split <;> rfl

/-- A value that begins inside a container leaves it open. -/
theorem stack_ne_nil_of_beginValue {stack : List Frame} {t : Token} {b : Builder}
    (h : beginValue stack t = some b) (hstack : stack ≠ []) : b.stack ≠ [] := by
  unfold beginValue at h
  split at h
  · obtain rfl := Option.some.inj h; exact hstack
  · obtain rfl := Option.some.inj h; exact hstack
  · obtain rfl := Option.some.inj h; exact hstack
  · obtain rfl := Option.some.inj h; exact List.cons_ne_nil _ _
  · obtain rfl := Option.some.inj h; exact List.cons_ne_nil _ _
  · cases h

/-- Once a container is open, a value that is complete outside of it is a container. -/
theorem Enclosed.take {b b' : Builder} {t : Token} (hb : b.Enclosed) (h : b.take t = some b') :
    b'.Enclosed := by
  obtain ⟨stack, position⟩ := b
  have hopen : (∀ j, position ≠ .complete j) → stack ≠ [] := by
    intro hposition
    rcases hb with hstack | ⟨j, hj, -⟩
    · exact hstack
    · exact absurd hj (hposition j)
  unfold Builder.take at h
  split at h
  · next hvalue =>
    have hstack := hopen (by simp [show position = .value from hvalue])
    exact Or.inl (stack_ne_nil_of_beginValue h hstack)
  · obtain rfl := Option.some.inj h
    exact enclosed_close _ rfl
  · next hitem _ =>
    have hstack := hopen (by simp [show position = .firstItem from hitem])
    exact Or.inl (stack_ne_nil_of_beginValue h hstack)
  · obtain rfl := Option.some.inj h
    exact enclosed_close _ rfl
  · next hname =>
    obtain rfl := Option.some.inj h
    exact Or.inl (hopen (by simp [show position = .firstName from hname]))
  · next hname =>
    obtain rfl := Option.some.inj h
    exact Or.inl (hopen (by simp [show position = .name from hname]))
  · obtain rfl := Option.some.inj h
    exact Or.inl (List.cons_ne_nil _ _)
  · unfold afterValue at h
    split at h
    · obtain rfl := Option.some.inj h
      exact Or.inl (List.cons_ne_nil _ _)
    · obtain rfl := Option.some.inj h
      exact enclosed_close _ rfl
    · obtain rfl := Option.some.inj h
      exact Or.inl (List.cons_ne_nil _ _)
    · obtain rfl := Option.some.inj h
      exact enclosed_close _ (isCompound_objectOf _)
    · cases h
  · cases h

theorem Enclosed.build? {b : Builder} {ts : List Token} {j : Json} (hb : b.Enclosed)
    (h : b.build? ts = some j) : isCompound j = true := by
  induction ts generalizing b with
  | nil =>
    obtain ⟨stack, position⟩ := b
    rw [build?_nil] at h
    unfold value? at h
    split at h
    · next k hk =>
      obtain rfl := Option.some.inj h
      obtain ⟨rfl, rfl⟩ := Builder.mk.inj hk
      rcases hb with hstack | ⟨l, hl, hcompound⟩
      · exact absurd rfl hstack
      · obtain rfl := Position.complete.inj hl
        exact hcompound
    · cases h
  | cons t ts ih =>
    rw [build?_cons] at h
    obtain ⟨b', hb', h⟩ := Option.bind_eq_some_iff.mp h
    exact ih (hb.take hb') h

/-- Nothing may follow a value that stands in no container. -/
theorem build?_complete {j k : Json} {ts : List Token} :
    build? ⟨[], .complete k⟩ ts = some j ↔ ts = [] ∧ k = j := by
  cases ts with
  | nil =>
    rw [build?_nil]
    simp [value?]
  | cons t ts =>
    rw [build?_cons]
    refine iff_of_false ?_ (by simp)
    cases t <;> exact nofun

end Builder

/-- **A value that is no container is built from one token.** -/
theorem tokens_of_build? {ts : List Token} {j : Json} (hj : isCompound j = false)
    (h : Builder.build? ⟨[], .value⟩ ts = some j) :
    ts = [.literal j] ∨ ∃ s, j = .text s ∧ ts = [.text (some s)] := by
  -- from an open container on, only a container can come
  have hopen : ∀ {f : Frame} {p : Position} {rest : List Token},
      Builder.build? ⟨[f], p⟩ rest ≠ some j := by
    intro f p rest hrest
    have hcompound := Builder.Enclosed.build? (Or.inl (List.cons_ne_nil _ _)) hrest
    rw [hj] at hcompound
    cases hcompound
  cases ts with
  | nil => cases h
  | cons t rest =>
    rw [Builder.build?_cons] at h
    cases t with
    | literal k =>
      obtain ⟨rfl, rfl⟩ := Builder.build?_complete.mp h
      exact Or.inl rfl
    | text s =>
      cases s with
      | none =>
        obtain ⟨-, rfl⟩ := Builder.build?_complete.mp h
        cases hj
      | some s =>
        obtain ⟨rfl, rfl⟩ := Builder.build?_complete.mp h
        exact Or.inr ⟨s, rfl, rfl⟩
    | openList => exact absurd h hopen
    | openObject => exact absurd h hopen
    | _ => cases h

end Custody.Json
