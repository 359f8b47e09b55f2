import Custody.Json.Form
import Custody.Proofs.Json.Token

/-!
# Reading written values

A value is **plain** if the printer and the reader agree on it: it has no part that is unreadable
or a number with a fraction or an exponent, its whole numbers fit in 64 bits, and its containers
stand in one another no deeper than the reader allows.  Every record of this library is written as
a plain value.

* `readsBack`: reading the characters of a plain value where a value may come completes it.
* `parse?_render`, `parseBytes?_bytes`: a plain value is read back from its text and from its bytes.
* `isReadable_of_isPlain`: no part of a plain value is unreadable.
-/

namespace Custody.Json

mutual

/-- Whether a value is read back as it is written, inside `n` further containers: no part of it is
a number with a fraction or an exponent, or unreadable, and whole numbers fit in 64 bits. -/
def isPlain : Nat → Json → Bool
  | _, null | _, bool _ | _, text _ => true
  | _, int n => n.natAbs < UInt64.size
  | n + 1, list items => allPlain n items
  | n + 1, object members => membersPlain n members
  | 0, list _ | 0, object _ | _, real .. | _, unreadable => false

/-- Whether each of the values is read back as it is written. -/
def allPlain : Nat → List Json → Bool
  | _, [] => true
  | n, j :: rest => isPlain n j && allPlain n rest

/-- Whether each member's value is read back as it is written. -/
def membersPlain : Nat → List (String × Json) → Bool
  | _, [] => true
  | n, (_, j) :: rest => isPlain n j && membersPlain n rest

end

theorem Settles.after_cons {r : Reader} {b : Builder} (h : Settles r b) {c : Char}
    (hc : EndsValue c) (cs : List Char) :
    r.after (c :: cs) = Reader.after ⟨.between, b⟩ (c :: cs) := by
  rw [Json.after_cons, h.step c hc, Json.after_cons]

/-- A position at which a value may begin. -/
def Builder.AwaitsValue (b : Builder) : Prop := b.position = .value ∨ b.position = .firstItem

theorem take_of_awaitsValue {b : Builder} (h : b.AwaitsValue) {t : Token} (ht : t ≠ .closeList) :
    b.take t = Builder.beginValue b.stack t := by
  obtain ⟨stack, position⟩ := b
  rcases h with h | h
  · obtain rfl : position = .value := h
    rfl
  · obtain rfl : position = .firstItem := h
    cases t with
    | closeList => exact absurd rfl ht
    | _ => simp only [Builder.take]

/-- Reading the characters of a value where a value may come completes that value. -/
def ReadsBack (j : Json) (n : Nat) : Prop :=
  ∀ b : Builder, b.AwaitsValue → b.stack.length + n ≤ maxDepth →
    ∃ r, Reader.after ⟨.between, b⟩ (chars j) = some r ∧ Settles r ⟨b.stack, .complete j⟩

theorem readsBack_text (s : String) (n : Nat) : ReadsBack (text s) n := fun b hb _ =>
  ⟨_, after_quoted s (take_of_awaitsValue hb (by simp)), settles_between _⟩

theorem readsBack_int {i : Int} (h : i.natAbs < UInt64.size) (n : Nat) : ReadsBack (int i) n :=
  fun b hb _ => by
    refine ⟨_, after_intChars i b, settles_number ?_ (take_of_awaitsValue hb (by simp))⟩
    rw [List.reverse_reverse]
    exact numeral?_intChars h

theorem after_word (cs read : List Char) (b : Builder) (h : ∀ c ∈ cs, c.isLower = true) :
    Reader.after ⟨.word read, b⟩ cs = some ⟨.word (cs.reverse ++ read), b⟩ := by
  induction cs generalizing read with
  | nil => rfl
  | cons c cs ih =>
    rw [after_cons_of_step (step_of_quiet b (t := .word (c :: read)) (by
      simp [Scan.step, h c List.mem_cons_self])), ih _ fun d hd => h d (List.mem_cons_of_mem _ hd)]
    simp

theorem readsBack_word {c : Char} {cs : List Char} {j : Json} (hc : chars j = c :: cs)
    (hj : word? (c :: cs) = some j) (hstart : Scan.between.step (some c) = some ([], .word [c]))
    (h : cs.all Char.isLower = true) (n : Nat) : ReadsBack j n := fun b hb _ => by
  rw [hc, after_cons_of_step (step_of_quiet b hstart),
    after_word cs [c] b (List.all_eq_true.mp h)]
  refine ⟨_, rfl, settles_word ?_ (take_of_awaitsValue hb (by simp))⟩
  simpa using hj

/-- After the items that follow, the list is complete. -/
def TailReadsBack (rest : List Json) (n : Nat) : Prop :=
  ∀ (r : Reader) (stack : List Frame) (items : List Json) (j : Json),
    Settles r ⟨.list items :: stack, .complete j⟩ → stack.length + n < maxDepth →
    r.after (itemsTail rest) =
      some ⟨.between, ⟨stack, .complete (list (items.reverse ++ j :: rest))⟩⟩

theorem tailReadsBack_nil (n : Nat) : TailReadsBack [] n := fun r stack items j hr hn => by
  rw [itemsTail, hr.after_cons (Or.inr (Or.inl rfl))]
  refine after_cons_of_step (step_of_token rfl ?_)
  simp [Builder.take, Builder.afterValue, Builder.close, show stack.length < maxDepth by omega]

theorem tailReadsBack_cons {j' : Json} {rest : List Json} {n : Nat} (hj : ReadsBack j' n)
    (hrest : TailReadsBack rest n) : TailReadsBack (j' :: rest) n :=
  fun r stack items j hr hn => by
    rw [itemsTail, hr.after_cons (Or.inl rfl),
      after_cons_of_step (step_of_token (d := ⟨.list (j :: items) :: stack, .value⟩) rfl rfl)]
    obtain ⟨r', hr', hs⟩ := hj ⟨.list (j :: items) :: stack, .value⟩ (Or.inl rfl)
      (by simp only [List.length_cons]; omega)
    rw [after_append_of_after hr', hrest r' stack (j :: items) j' hs hn]
    simp

theorem readsBack_list_nil (n : Nat) : ReadsBack (list []) (n + 1) := fun b hb hn => by
  refine ⟨⟨.between, ⟨b.stack, .complete (list [])⟩⟩, ?_, settles_between _⟩
  rw [chars, after_cons_of_step (step_of_token (d := ⟨.list [] :: b.stack, .firstItem⟩) rfl
    (take_of_awaitsValue hb (by simp)))]
  refine after_cons_of_step (step_of_token rfl ?_)
  simp [Builder.take, Builder.close, show b.stack.length < maxDepth by omega]

theorem readsBack_list_cons {j : Json} {rest : List Json} {n : Nat} (hj : ReadsBack j n)
    (hrest : TailReadsBack rest n) : ReadsBack (list (j :: rest)) (n + 1) := fun b hb hn => by
  rw [chars, after_cons_of_step (step_of_token (d := ⟨.list [] :: b.stack, .firstItem⟩) rfl
    (take_of_awaitsValue hb (by simp)))]
  obtain ⟨r, hr, hs⟩ := hj ⟨.list [] :: b.stack, .firstItem⟩ (Or.inr rfl)
    (by simp only [List.length_cons]; omega)
  rw [after_append_of_after hr, hrest r b.stack [] j hs (by omega)]
  exact ⟨_, rfl, settles_between _⟩

/-- After the members that follow, the object is complete. -/
def MembersReadBack (rest : List (String × Json)) (n : Nat) : Prop :=
  ∀ (r : Reader) (stack : List Frame) (members : List (String × Json)) (name : String) (j : Json),
    Settles r ⟨.member (some name) (members.map fun m => (some m.1, m.2)) :: stack, .complete j⟩ →
    stack.length + n < maxDepth →
    r.after (membersTail rest) =
      some ⟨.between, ⟨stack, .complete (object (members.reverse ++ (name, j) :: rest))⟩⟩

theorem objectOf_map (members : List (String × Json)) :
    Builder.objectOf (members.map fun m => (some m.1, m.2)) = object members.reverse := by
  have hread : ∀ l : List (String × Json),
      (l.map fun m => (some m.1, m.2)).mapM (fun m : Option String × Json =>
        m.1.map fun name => (name, m.2)) = some l := fun l => by
    induction l with
    | nil => rfl
    | cons m l ih => simp [List.mapM_cons, ih]
  rw [Builder.objectOf, ← List.map_reverse, hread]

theorem membersReadBack_nil (n : Nat) : MembersReadBack [] n :=
  fun r stack members name j hr hn => by
    rw [membersTail, hr.after_cons (Or.inr (Or.inr rfl))]
    refine after_cons_of_step (step_of_token rfl ?_)
    have hobject := objectOf_map ((name, j) :: members)
    rw [List.map_cons] at hobject
    simp [Builder.take, Builder.afterValue, Builder.close, hobject,
      show stack.length < maxDepth by omega]

/-- A name and its colon. -/
theorem after_name (name : String) (cs : List Char) {b : Builder} {stack : List Frame}
    {members : List (Option String × Json)} (hb : b.stack = .object members :: stack)
    (hpos : b.position = .name ∨ b.position = .firstName) :
    Reader.after ⟨.between, b⟩ (quoted name ++ ':' :: cs) =
      Reader.after ⟨.between, ⟨.member (some name) members :: stack, .value⟩⟩ cs := by
  have hname : b.take (.text (some name)) = some ⟨b.stack, .colon (some name)⟩ := by
    obtain ⟨stack', position⟩ := b
    rcases hpos with h | h
    · obtain rfl : position = .name := h
      rfl
    · obtain rfl : position = .firstName := h
      simp only [Builder.take]
  rw [after_append_of_after (after_quoted name hname), hb]
  exact after_cons_of_step (step_of_token rfl rfl)

theorem membersReadBack_cons {name' : String} {j' : Json} {rest : List (String × Json)} {n : Nat}
    (hj : ReadsBack j' n) (hrest : MembersReadBack rest n) :
    MembersReadBack ((name', j') :: rest) n := fun r stack members name j hr hn => by
  rw [membersTail, hr.after_cons (Or.inl rfl), after_cons_of_step (step_of_token rfl rfl),
    after_name name' _ rfl (Or.inl rfl)]
  obtain ⟨r', hr', hs⟩ := hj
    ⟨.member (some name') (((name, j) :: members).map fun m => (some m.1, m.2)) :: stack, .value⟩
    (Or.inl rfl) (by simp only [List.length_cons]; omega)
  refine (after_append_of_after hr').trans ((hrest r' stack _ name' j' hs hn).trans ?_)
  simp

theorem readsBack_object_nil (n : Nat) : ReadsBack (object []) (n + 1) := fun b hb hn => by
  refine ⟨⟨.between, ⟨b.stack, .complete (object [])⟩⟩, ?_, settles_between _⟩
  rw [chars, after_cons_of_step (step_of_token (d := ⟨.object [] :: b.stack, .firstName⟩) rfl
    (take_of_awaitsValue hb (by simp)))]
  refine after_cons_of_step (step_of_token rfl ?_)
  simp [Builder.take, Builder.close, show b.stack.length < maxDepth by omega]

theorem readsBack_object_cons {name : String} {j : Json} {rest : List (String × Json)} {n : Nat}
    (hj : ReadsBack j n) (hrest : MembersReadBack rest n) :
    ReadsBack (object ((name, j) :: rest)) (n + 1) := fun b hb hn => by
  rw [chars, after_cons_of_step (step_of_token (d := ⟨.object [] :: b.stack, .firstName⟩) rfl
    (take_of_awaitsValue hb (by simp))), after_name name _ rfl (Or.inr rfl)]
  obtain ⟨r, hr, hs⟩ := hj ⟨.member (some name) [] :: b.stack, .value⟩ (Or.inl rfl)
    (by simp only [List.length_cons]; omega)
  rw [after_append_of_after hr, hrest r b.stack [] name j hs (by omega)]
  exact ⟨_, rfl, settles_between _⟩

mutual

theorem readsBack : ∀ (j : Json) (n : Nat), isPlain n j = true → ReadsBack j n
  | null, n, _ => readsBack_word rfl rfl rfl rfl n
  | bool true, n, _ => readsBack_word rfl rfl rfl rfl n
  | bool false, n, _ => readsBack_word rfl rfl rfl rfl n
  | int _, n, h => readsBack_int (by simpa [isPlain] using h) n
  | text s, n, _ => readsBack_text s n
  | list [], n + 1, _ => readsBack_list_nil n
  | list (j :: rest), n + 1, h => by
    obtain ⟨hj, hrest⟩ : isPlain n j = true ∧ allPlain n rest = true := by
      simpa [isPlain, allPlain] using h
    exact readsBack_list_cons (readsBack j n hj) (tailReadsBack rest n hrest)
  | object [], n + 1, _ => readsBack_object_nil n
  | object ((name, j) :: rest), n + 1, h => by
    obtain ⟨hj, hrest⟩ : isPlain n j = true ∧ membersPlain n rest = true := by
      simpa [isPlain, membersPlain] using h
    exact readsBack_object_cons (readsBack j n hj) (membersReadBack rest n hrest)
  | list _, 0, h => by simp [isPlain] at h
  | object _, 0, h => by simp [isPlain] at h
  | real .., n, h => by simp [isPlain] at h
  | unreadable, n, h => by simp [isPlain] at h

theorem tailReadsBack : ∀ (rest : List Json) (n : Nat), allPlain n rest = true →
    TailReadsBack rest n
  | [], n, _ => tailReadsBack_nil n
  | j :: rest, n, h => by
    obtain ⟨hj, hrest⟩ : isPlain n j = true ∧ allPlain n rest = true := by
      simpa [allPlain] using h
    exact tailReadsBack_cons (readsBack j n hj) (tailReadsBack rest n hrest)

theorem membersReadBack : ∀ (rest : List (String × Json)) (n : Nat), membersPlain n rest = true →
    MembersReadBack rest n
  | [], n, _ => membersReadBack_nil n
  | (_, j) :: rest, n, h => by
    obtain ⟨hj, hrest⟩ : isPlain n j = true ∧ membersPlain n rest = true := by
      simpa [membersPlain] using h
    exact membersReadBack_cons (readsBack j n hj) (membersReadBack rest n hrest)

end

/-- **A plain value is read back from its characters.** -/
theorem parsePieces?_chars {n : Nat} {j : Json} (hn : n ≤ maxDepth) (h : isPlain n j = true) :
    parsePieces? (j.chars.map some) = some j := by
  obtain ⟨r, hr, hs⟩ := readsBack j n h ⟨[], .value⟩ (Or.inl rfl) (by simpa using hn)
  have hfold : (j.chars.map some).foldlM Reader.step Reader.initial = some r := by
    rw [List.foldlM_map]
    exact hr
  rw [parsePieces?, hfold, Option.bind_some, hs.finish?]
  rfl

theorem parse?_render {n : Nat} {j : Json} (hn : n ≤ maxDepth) (h : isPlain n j = true) :
    parse? j.render = some j := by
  rw [parse?, render, String.toList_ofList, parsePieces?_chars hn h]

theorem parseBytes?_bytes {n : Nat} {j : Json} (hn : n ≤ maxDepth) (h : isPlain n j = true) :
    parseBytes? j.bytes = some j := by
  rw [parseBytes?, bytes, Utf8.pieces_encode, parsePieces?_chars hn h]

mutual

theorem isPlain_mono {n m : Nat} (hnm : n ≤ m) :
    ∀ {j : Json}, isPlain n j = true → isPlain m j = true
  | null, _ | bool _, _ | text _, _ => by simp [isPlain]
  | int _, h => by simpa [isPlain] using h
  | list items, h => by
    cases n with
    | zero => simp [isPlain] at h
    | succ n =>
      cases m with
      | zero => omega
      | succ m => exact allPlain_mono (by omega) h
  | object members, h => by
    cases n with
    | zero => simp [isPlain] at h
    | succ n =>
      cases m with
      | zero => omega
      | succ m => exact membersPlain_mono (by omega) h
  | real .., h => by simp [isPlain] at h
  | unreadable, h => by simp [isPlain] at h

theorem allPlain_mono {n m : Nat} (hnm : n ≤ m) :
    ∀ {l : List Json}, allPlain n l = true → allPlain m l = true
  | [], _ => by simp [allPlain]
  | j :: rest, h => by
    obtain ⟨hj, hrest⟩ : isPlain n j = true ∧ allPlain n rest = true := by
      simpa [allPlain] using h
    simp [allPlain, isPlain_mono hnm hj, allPlain_mono hnm hrest]

theorem membersPlain_mono {n m : Nat} (hnm : n ≤ m) :
    ∀ {l : List (String × Json)}, membersPlain n l = true → membersPlain m l = true
  | [], _ => by simp [membersPlain]
  | (_, j) :: rest, h => by
    obtain ⟨hj, hrest⟩ : isPlain n j = true ∧ membersPlain n rest = true := by
      simpa [membersPlain] using h
    simp [membersPlain, isPlain_mono hnm hj, membersPlain_mono hnm hrest]

end

mutual

theorem isReadable_of_isPlain {n : Nat} : ∀ {j : Json}, isPlain n j = true → isReadable j = true
  | null, _ | bool _, _ | int _, _ | text _, _ => rfl
  | list items, h => by
    cases n with
    | zero => simp [isPlain] at h
    | succ n => exact allReadable_of_allPlain h
  | object members, h => by
    cases n with
    | zero => simp [isPlain] at h
    | succ n => exact membersReadable_of_membersPlain h
  | real .., _ => rfl
  | unreadable, h => by simp [isPlain] at h

theorem allReadable_of_allPlain {n : Nat} :
    ∀ {l : List Json}, allPlain n l = true → allReadable l = true
  | [], _ => rfl
  | j :: rest, h => by
    obtain ⟨hj, hrest⟩ : isPlain n j = true ∧ allPlain n rest = true := by
      simpa [allPlain] using h
    rw [allReadable, isReadable_of_isPlain hj, allReadable_of_allPlain hrest, Bool.and_self]

theorem membersReadable_of_membersPlain {n : Nat} :
    ∀ {l : List (String × Json)}, membersPlain n l = true → membersReadable l = true
  | [], _ => rfl
  | (_, j) :: rest, h => by
    obtain ⟨hj, hrest⟩ : isPlain n j = true ∧ membersPlain n rest = true := by
      simpa [membersPlain] using h
    rw [membersReadable, isReadable_of_isPlain hj, membersReadable_of_membersPlain hrest,
      Bool.and_self]

end

end Custody.Json
