import Custody.Proofs.Json.Lawful

/-!
# Records with counts

A count is an unbounded number, and a text holds it only below `2 ^ 64`.  A JSON form is **faithful**
to the values with a property if each of them is read back as it was written, and nothing else is
ever read.  A lawful form is faithful to all values, a record with counts to those whose counts fit.

* `Faithful`, `LawfulForm.faithful`: the property, and where it comes from.
* `Faithful.list`: lists of such values.
* `Json.of_required?`, `Json.of_optional?`, `Json.of_defaulted?`: what is read from a member has what
  everything has that its reader reads.
* `ReadsBack`, `Faithful.readsBack`: **what was written, or read from any bytes, is read back.**
-/

namespace Custody

open LawfulForm

namespace Json

variable {α : Type}

/-! ### Counts -/

theorem count?_count {n : Nat} (h : n < wordBound) : count? (count n) = some n := below?_int h

theorem isPlain_count {n : Nat} (h : n < wordBound) (d : Nat) : (count n).isPlain d = true :=
  isPlain_natCast h d

theorem lt_of_count? {j : Json} {n : Nat} (h : count? j = some n) : n < wordBound := by
  rw [count?] at h
  unfold below? at h
  split at h
  · obtain ⟨hlt, heq⟩ := Option.ite_none_right_eq_some.mp h
    exact Option.some.inj heq ▸ hlt
  · cases h

/-! ### Values that may be absent -/

theorem isPlain_nullable {write : α → Json} {o : Option α} {d : Nat}
    (h : ∀ a, o = some a → (write a).isPlain d = true) : (nullable write o).isPlain d = true := by
  cases o with
  | none => rfl
  | some a => exact h a rfl

/-- A value that can be read is not taken for `null` if `null` cannot be read. -/
theorem nullable?_eq_some {read? : Json → Option α} (hnull : read? null = none) {j : Json} {a : α}
    (h : read? j = some a) : nullable? read? j = some (some a) := by
  cases j with
  | null =>
    rw [hnull] at h
    exact nomatch h
  | _ => simp [nullable?, h]

theorem nullable?_nullable {write : α → Json} {read? : Json → Option α}
    (hnull : read? null = none) {o : Option α} (h : ∀ a, o = some a → read? (write a) = some a) :
    nullable? read? (nullable write o) = some o := by
  cases o with
  | none => rfl
  | some a => exact nullable?_eq_some hnull (h a rfl)

/-- Of what is read item by item, each value is read from an item. -/
theorem exists_of_mapM_eq_some {β : Type} {f : β → Option α} {l : List β} {l' : List α}
    (h : l.mapM f = some l') {a : α} (ha : a ∈ l') : ∃ b ∈ l, f b = some a := by
  induction l generalizing l' with
  | nil =>
    obtain rfl := Option.some.inj h
    exact nomatch ha
  | cons b rest ih =>
    rw [List.mapM_cons] at h
    obtain ⟨c, hc, h⟩ := Option.bind_eq_some_iff.mp h
    obtain ⟨cs, hcs, h⟩ := Option.bind_eq_some_iff.mp h
    obtain rfl := Option.some.inj h
    rcases List.mem_cons.mp ha with rfl | ha
    · exact ⟨b, List.mem_cons_self, hc⟩
    · obtain ⟨d, hd, hread⟩ := ih hcs ha
      exact ⟨d, List.mem_cons_of_mem _ hd, hread⟩

section Parts

variable {P : α → Prop} {read? : Json → Option α} (hP : ∀ {j a}, read? j = some a → P a)

include hP

theorem of_nullable? {j : Json} {o : Option α} (h : nullable? read? j = some o) :
    ∀ a, o = some a → P a := by
  intro a ha
  unfold nullable? at h
  split at h
  · obtain rfl := Option.some.inj h
    cases ha
  · obtain ⟨b, hb, rfl⟩ := Option.map_eq_some_iff.mp h
    exact Option.some.inj ha ▸ hP hb

theorem of_listOf? {j : Json} {l : List α} (h : listOf? read? j = some l) : ∀ a ∈ l, P a := by
  intro a ha
  unfold listOf? at h
  split at h
  · obtain ⟨item, -, hitem⟩ := exists_of_mapM_eq_some h ha
    exact hP hitem
  · cases h

variable {members : List (String × Json)} {name : String}

theorem of_required? {a : α} (h : required? members name read? = some a) : P a := by
  unfold required? at h
  split at h
  · exact hP h
  · cases h

theorem of_optional? {o : Option α} (h : optional? members name read? = some o) :
    ∀ a, o = some a → P a := by
  unfold optional? at h
  split at h
  · cases h
  · obtain rfl := Option.some.inj h
    intro a ha
    cases ha
  · exact of_nullable? hP h

theorem of_defaulted? {default a : α} (hdefault : P default)
    (h : defaulted? members name read? default = some a) : P a := by
  unfold defaulted? at h
  split at h
  · cases h
  · exact Option.some.inj h ▸ hdefault
  · exact hP h

end Parts

end Json

/-- The bytes of a value are those of its text. -/
theorem ofString_encodeText {α : Type} [JsonForm α] (a : α) :
    Utf8.ofString (encodeText a) = encode a := by
  rw [encodeText, Json.render, Utf8.ofString, String.toList_ofList, encode, Json.bytes]

/-! ### Faithful forms -/

/-- A JSON form from which the values with a property are read back, inside `depth` containers at
most; whatever is read has the property. -/
structure Faithful (α : Type) [JsonForm α] (P : α → Prop) (depth : Nat) : Prop where
  isPlain_toJson {a : α} (h : P a) : (toJson a).isPlain depth = true
  ofJson?_toJson {a : α} (h : P a) : ofJson? (toJson a) = some a
  of_ofJson? {j : Json} {a : α} (h : ofJson? j = some a) : P a

variable {α : Type} [JsonForm α] {P : α → Prop} {depth : Nat}

theorem LawfulForm.faithful [LawfulForm α depth] : Faithful α (fun _ => True) depth where
  isPlain_toJson _ := isPlain_toJson _
  ofJson?_toJson _ := ofJson?_toJson _
  of_ofJson? _ := trivial

namespace Faithful

theorem list (h : Faithful α P depth) : Faithful (List α) (fun l => ∀ a ∈ l, P a) (depth + 1) where
  isPlain_toJson hl := by
    simp only [toJson, Json.listOf, Json.isPlain]
    exact Json.allPlain_map fun a ha => h.isPlain_toJson (hl a ha)
  ofJson?_toJson hl := Json.mapM_map_some fun a ha => h.ofJson?_toJson (hl a ha)
  of_ofJson? hl := Json.of_listOf? h.of_ofJson? hl

theorem isPlain_toJson_of_le (h : Faithful α P depth) {n : Nat} (hn : depth ≤ n) {a : α}
    (ha : P a) : (toJson a).isPlain n = true :=
  Json.isPlain_mono hn (h.isPlain_toJson ha)

/-- **The bytes of a value denote it.** -/
theorem decode?_encode (h : Faithful α P depth) (hdepth : depth ≤ Json.maxDepth) {a : α}
    (ha : P a) : decode? (encode a) = some a :=
  decode?_encode_of_isPlain hdepth (h.isPlain_toJson ha) (h.ofJson?_toJson ha)

/-- Values with the same bytes are the same. -/
theorem encode_inj (h : Faithful α P depth) (hdepth : depth ≤ Json.maxDepth) {a b : α} (ha : P a)
    (hb : P b) (hab : encode a = encode b) : a = b := by
  have hdecode := h.decode?_encode hdepth ha
  rw [hab, h.decode?_encode hdepth hb] at hdecode
  exact (Option.some.inj hdecode).symm

/-- The text of a value denotes it. -/
theorem decodeText?_encodeText (h : Faithful α P depth) (hdepth : depth ≤ Json.maxDepth) {a : α}
    (ha : P a) : decodeText? (encodeText a) = some a := by
  rw [decodeText?, encodeText, Json.parse?_render hdepth (h.isPlain_toJson ha), Option.bind_some,
    h.ofJson?_toJson ha]

theorem of_decode? (h : Faithful α P depth) {bytes : Bytes} {a : α} (ha : decode? bytes = some a) :
    P a := by
  obtain ⟨j, -, hj⟩ := Option.bind_eq_some_iff.mp ha
  exact h.of_ofJson? hj

end Faithful

/-! ### Reading back -/

/-- Values with a property are read from what was written of them, under any key; whatever bytes a
value is read from, it has the property, and it is read from what is written of it. -/
structure ReadsBack (α : Type) [JsonForm α] (P : α → Prop) : Prop where
  written : ∀ (key : Bytes) (a : α), P a → Query.read key (encode a) = .ok a
  again : ∀ (key bytes : Bytes) (a : α), Query.read key bytes = .ok a →
    P a ∧ Query.read key (encode a) = .ok a

theorem Faithful.readsBack (h : Faithful α P depth) (hdepth : depth ≤ Json.maxDepth) :
    ReadsBack α P := by
  have hwritten : ∀ (key : Bytes) (a : α), P a → Query.read key (encode a) = .ok a := by
    intro key a ha
    rw [Query.read, h.decode?_encode hdepth ha]
  refine ⟨hwritten, ?_⟩
  intro key bytes a hread
  rw [Query.read] at hread
  cases hdecode : (decode? bytes : Option α) with
  | none =>
    rw [hdecode] at hread
    exact nomatch hread
  | some b =>
    rw [hdecode] at hread
    obtain rfl := Except.ok.inj hread
    have hb := h.of_decode? hdecode
    exact ⟨hb, hwritten key b hb⟩

end Custody
