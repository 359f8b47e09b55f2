import Mathlib.Data.List.Induction
import Custody.Journal.Basic

/-!
# The journal is a sliding window

Beside the journal stands the **history** of all entries that were ever appended, each under the
number of its place.  What is retained is the end of it: the entries since the journal was cleared
last, or as many of them as the capacity admits.  The numbers of the retained entries have no gap,
so an entry is found by counting from the first.

* `Journal.Retains`: a journal retains the end of a history.
* `Retains.push`, `Retains.clear`: kept by every change of a journal.
* `Retains.get?_eq`, `Retains.since_eq`: what is found in it.
* `Journal.window_exact`: **a journal is an exact window, whatever is done to it.**
-/

namespace Custody

namespace Journal

/-! ### The end of a history -/

/-- As many of a number of entries as a capacity admits. -/
def admitted : Option Nat → Nat → Nat
  | none, n => n
  | some capacity, n => min capacity n

theorem admitted_le (capacity : Option Nat) (n : Nat) : admitted capacity n ≤ n := by
  cases capacity with
  | none => exact Nat.le_refl n
  | some c => exact Nat.min_le_right c n

/-- Of a history whose last `recent` entries came since the journal was cleared, the journal retains
those that its capacity admits. -/
structure Retains (j : Journal) (history : List JournalEntry) (recent : Nat) : Prop where
  /-- Each entry has the number of its place. -/
  numbered : history.map JournalEntry.sequence = List.range history.length
  next : j.nextSequence = history.length
  recent_le : recent ≤ history.length
  entries : j.entries = history.drop (history.length - admitted j.capacity recent)

/-- What is retained of the end of a history and one more entry is an end of the longer one. -/
theorem retain_drop_append (capacity : Option Nat) (history : List JournalEntry) (e : JournalEntry)
    {recent : Nat} (h : recent ≤ history.length) :
    retain capacity (history.drop (history.length - admitted capacity recent) ++ [e]) =
      (history ++ [e]).drop ((history ++ [e]).length - admitted capacity (recent + 1)) := by
  rw [← List.drop_append_of_le_length (Nat.sub_le _ _), List.length_append, List.length_singleton]
  cases capacity with
  | none =>
    have hplace : history.length + 1 - (recent + 1) = history.length - recent := by omega
    rw [retain, admitted, admitted, hplace]
  | some c =>
    rw [retain, List.drop_drop, List.length_drop, List.length_append, List.length_singleton,
      admitted, admitted]
    congr 1
    omega

theorem retains_withCapacity (capacity : Option Nat) : (withCapacity capacity).Retains [] 0 :=
  ⟨rfl, rfl, Nat.le_refl 0, List.drop_nil.symm⟩

namespace Retains

variable {j : Journal} {history : List JournalEntry} {recent : Nat}

/-! ### Changes -/

/-- **An entry is appended to the history under the next number.** -/
theorem push (h : j.Retains history recent) (e : JournalEntry) :
    (j.push e).Retains (history ++ [{ e with sequence := history.length }]) (recent + 1) where
  numbered := by
    rw [List.map_append, h.numbered, List.length_append, List.length_singleton, List.range_succ]
    rfl
  next := by
    rw [Journal.push, h.next, List.length_append, List.length_singleton]
  recent_le := by
    rw [List.length_append, List.length_singleton]
    exact Nat.succ_le_succ h.recent_le
  entries := by
    rw [Journal.push, h.entries, h.next]
    exact retain_drop_append j.capacity history _ h.recent_le

theorem record (h : j.Retains history recent) (e : Envelope) (verdict : Verdict Outcome)
    (codespace : String) : (j.record e verdict codespace).Retains
      (history ++ [.ofVerdict history.length e verdict codespace]) (recent + 1) :=
  h.push (.ofVerdict j.nextSequence e verdict codespace)

/-- When a journal is cleared, the history stays. -/
theorem clear (h : j.Retains history recent) : j.clear.Retains history 0 where
  numbered := h.numbered
  next := h.next
  recent_le := Nat.zero_le _
  entries := by
    have hnone : admitted j.capacity 0 = 0 := Nat.le_zero.mp (admitted_le j.capacity 0)
    rw [Journal.clear, hnone, Nat.sub_zero, List.drop_length]

/-! ### What is found -/

theorem sequence_of_getElem? (h : j.Retains history recent) {i : Nat} {e : JournalEntry}
    (he : history[i]? = some e) : e.sequence = i := by
  have hmap : (history.map JournalEntry.sequence)[i]? = some e.sequence := by
    rw [List.getElem?_map, he, Option.map_some]
  rw [h.numbered] at hmap
  obtain ⟨hlt, hi⟩ := List.getElem?_eq_some_iff.mp hmap
  rw [List.getElem_range] at hi
  exact hi.symm

/-- The retained entries have consecutive numbers, of which the last is before the next one. -/
theorem sequences (h : j.Retains history recent) : j.entries.map JournalEntry.sequence =
    List.range' (j.nextSequence - j.entries.length) j.entries.length := by
  have hadmitted := admitted_le j.capacity recent
  have hrecent := h.recent_le
  rw [h.next, h.entries, List.map_drop, h.numbered, List.range_eq_range', List.drop_range',
    List.length_drop]
  congr 1
  omega

/-- **An entry is found by its number just if it is in the window.** -/
theorem get?_eq (h : j.Retains history recent) (s : Nat) : j.get? s =
    if history.length - admitted j.capacity recent ≤ s then history[s]? else none := by
  rw [get?, h.entries]
  generalize history.length - admitted j.capacity recent = oldest
  cases hdrop : history.drop oldest with
  | nil =>
    have hlength := List.drop_eq_nil_iff.mp hdrop
    refine (ite_eq_right_iff.mpr fun hle => ?_).symm
    exact List.getElem?_eq_none (Nat.le_trans hlength hle)
  | cons first rest =>
    have hfirst : history[oldest]? = some first := by
      rw [← List.head?_drop, hdrop, List.head?_cons]
    change (if first.sequence ≤ s then (first :: rest)[s - first.sequence]? else none) = _
    rw [h.sequence_of_getElem? hfirst, ← hdrop]
    refine ite_congr rfl (fun hle => ?_) fun _ => rfl
    rw [List.getElem?_drop, Nat.add_sub_cancel' hle]

/-- The number of an entry is enough to find it, if it is retained. -/
theorem get?_eq_some_iff (h : j.Retains history recent) {s : Nat} {e : JournalEntry} :
    j.get? s = some e ↔ e ∈ j.entries ∧ e.sequence = s := by
  rw [h.get?_eq, Option.ite_none_right_eq_some, h.entries, List.mem_iff_getElem?]
  constructor
  · rintro ⟨hle, he⟩
    refine ⟨⟨s - (history.length - admitted j.capacity recent), ?_⟩, h.sequence_of_getElem? he⟩
    rw [List.getElem?_drop, Nat.add_sub_cancel' hle, he]
  · rintro ⟨⟨i, hi⟩, rfl⟩
    rw [List.getElem?_drop] at hi
    rw [h.sequence_of_getElem? hi]
    exact ⟨Nat.le_add_right _ _, hi⟩

/-- Of entries with consecutive numbers, those from a number on stand at the end. -/
theorem filter_sequence {l : List JournalEntry} {start : Nat}
    (h : l.map JournalEntry.sequence = List.range' start l.length) (s : Nat) :
    (l.filter fun e => s ≤ e.sequence) = l.drop (s - start) := by
  induction l generalizing start with
  | nil => rw [List.filter_nil, List.drop_nil]
  | cons e rest ih =>
    rw [List.map_cons, List.length_cons, List.range'_succ] at h
    obtain ⟨rfl, hrest⟩ := List.cons.inj h
    by_cases hle : s ≤ e.sequence
    · have hplace : s - (e.sequence + 1) = s - e.sequence := by omega
      rw [List.filter_cons_of_pos (by simpa using hle), ih hrest, hplace, Nat.sub_eq_zero_of_le hle,
        List.drop_zero, List.drop_zero]
    · have hplace : s - e.sequence = s - (e.sequence + 1) + 1 := by omega
      rw [List.filter_cons_of_neg (by simpa using hle), ih hrest, hplace, List.drop_succ_cons]

/-- **The entries from a number on are the rest of the window.** -/
theorem since_eq (h : j.Retains history recent) (s : Nat) : j.since s =
    history.drop (max s (history.length - admitted j.capacity recent)) := by
  have hadmitted := admitted_le j.capacity recent
  have hrecent := h.recent_le
  rw [since, filter_sequence h.sequences, h.entries, List.drop_drop, h.next, List.length_drop]
  congr 1
  omega

end Retains

/-! ### Whatever is done to a journal -/

/-- What can be done to a journal. -/
inductive Change where
  /-- An envelope and the verdict on it are recorded. -/
  | record (e : Envelope) (verdict : Verdict Outcome) (codespace : String)
  /-- An entry is appended that may have any number. -/
  | push (e : JournalEntry)
  | clear

/-- The journal after a change. -/
def change (j : Journal) : Change → Journal
  | .record e verdict codespace => j.record e verdict codespace
  | .push e => j.push e
  | .clear => j.clear

namespace Change

/-- The entry that a change appends under a number. -/
def entry? (number : Nat) : Change → Option JournalEntry
  | record e verdict codespace => some (.ofVerdict number e verdict codespace)
  | push e => some { e with sequence := number }
  | clear => none

/-- The entries that changes append, each under the number of those before it. -/
def appended (changes : List Change) : List JournalEntry :=
  changes.foldl (fun entries c => entries ++ (c.entry? entries.length).toList) []

/-- How many entries are appended after the last time that the journal is cleared. -/
def sinceClear (changes : List Change) : Nat :=
  (changes.reverse.takeWhile fun c => (c.entry? 0).isSome).length

theorem appended_append (changes : List Change) (c : Change) : appended (changes ++ [c]) =
    appended changes ++ (c.entry? (appended changes).length).toList := by
  rw [appended, List.foldl_append]
  rfl

theorem sinceClear_append (changes : List Change) (c : Change) : sinceClear (changes ++ [c]) =
    if (c.entry? 0).isSome then sinceClear changes + 1 else 0 := by
  rw [sinceClear, List.reverse_append, List.reverse_singleton, List.singleton_append,
    List.takeWhile_cons]
  split
  · rfl
  · rfl

end Change

/-- A new journal after changes. -/
def ofChanges (capacity : Option Nat) (changes : List Change) : Journal :=
  changes.foldl change (withCapacity capacity)

theorem capacity_change (j : Journal) (c : Change) : (j.change c).capacity = j.capacity := by
  cases c with
  | record e verdict codespace => rfl
  | push e => rfl
  | clear => rfl

theorem Retains.change {j : Journal} {history : List JournalEntry} {recent : Nat}
    (h : j.Retains history recent) (c : Change) :
    (j.change c).Retains (history ++ (c.entry? history.length).toList)
      (if (c.entry? 0).isSome then recent + 1 else 0) := by
  cases c with
  | record e verdict codespace => exact h.record e verdict codespace
  | push e => exact h.push e
  | clear =>
    rw [Change.entry?, Option.toList_none, List.append_nil]
    exact h.clear

/-- **A journal retains the end of its history, whatever is done to it.** -/
theorem retains_ofChanges (capacity : Option Nat) (changes : List Change) :
    (ofChanges capacity changes).capacity = capacity ∧
    (ofChanges capacity changes).Retains (Change.appended changes) (Change.sinceClear changes) := by
  induction changes using List.reverseRecOn with
  | nil => exact ⟨rfl, retains_withCapacity capacity⟩
  | append_singleton changes c ih =>
    rw [ofChanges, List.foldl_append, Change.appended_append, Change.sinceClear_append]
    exact ⟨(capacity_change _ c).trans ih.1, ih.2.change c⟩

/-- **A journal is an exact window.**  Whatever its capacity, and whatever is recorded, appended and
cleared: it retains the last entries that were appended, in their order, and of those since it was
cleared as many as the capacity admits.  They have consecutive numbers, of which the last is before
the next one; the next one is the number of all entries ever appended.  An entry that is retained,
and no other, is found by its number, and the entries from a number on are the rest of the window
from there. -/
theorem window_exact (capacity : Option Nat) (changes : List Change) :
    let j := ofChanges capacity changes
    let oldest := (Change.appended changes).length - admitted capacity (Change.sinceClear changes)
    j.entries = (Change.appended changes).drop oldest ∧
    j.entries.length = admitted capacity (Change.sinceClear changes) ∧
    j.entries.map JournalEntry.sequence =
      List.range' (j.nextSequence - j.entries.length) j.entries.length ∧
    j.nextSequence = (Change.appended changes).length ∧
    (∀ s e, j.get? s = some e ↔ e ∈ j.entries ∧ e.sequence = s) ∧
    ∀ s, j.since s = (Change.appended changes).drop (max s oldest) := by
  intro j oldest
  obtain ⟨hcapacity, h⟩ := retains_ofChanges capacity changes
  have hentries : j.entries = (Change.appended changes).drop oldest := by
    rw [h.entries, hcapacity]
  refine ⟨hentries, ?_, h.sequences, h.next, fun s e => h.get?_eq_some_iff, ?_⟩
  · have hadmitted := admitted_le capacity (Change.sinceClear changes)
    have hrecent := h.recent_le
    rw [hentries, List.length_drop]
    omega
  · intro s
    rw [h.since_eq, hcapacity]

end Journal

end Custody
