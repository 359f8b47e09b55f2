import Mathlib.Data.List.Nodup
import Mathlib.Data.List.Sort
import Custody.Engine.Replay
import Custody.Proofs.Engine.Snapshot

/-!
# What a replay passes

A replay goes from place to place.  At each one it compares the checkpoint, if there is one, and
applies the batch, which is empty if none was recorded.  What it would pass if nothing diverged is
its **agenda**, and it completes just if the executor can go through the agenda: if each checkpoint
has the hash that the executor has come to when it gets there.

* `LogEntry.Before`: the order of the entries of a log.
* `Schedule.Lists`, `Schedule.lists_of_ofEntries`: a schedule says what the entries of a log say.
* `Schedule.exists_ofEntries_iff`: a log has a schedule if it has no two entries of a kind at a place.
* `Schedule.agenda`, `Schedule.mem_agenda`: what a replay goes through.
* `Executor.Traverses`: an executor goes through entries one by one.
* `Executor.replayFrom_completed`, `Executor.replay_completed`: **a replay completes just if its
  agenda is gone through.**
-/

namespace Custody

/-! ### Entries of a log -/

namespace LogEntry

/-- The place of an entry. -/
def index : LogEntry → Nat
  | batch i _ => i
  | checkpoint i _ => i

/-- The place of a batch. -/
def place? : LogEntry → Option Nat
  | batch i _ => some i
  | checkpoint _ _ => none

/-- The place of a checkpoint. -/
def mark? : LogEntry → Option Nat
  | batch _ _ => none
  | checkpoint i _ => some i

/-- The envelopes of a batch. -/
def envelopes? : LogEntry → Option (List Envelope)
  | batch _ es => some es
  | checkpoint _ _ => none

/-- The order of places, in which a checkpoint comes before the batch at its place. -/
def rank : LogEntry → Nat
  | checkpoint i _ => 2 * i
  | batch i _ => 2 * i + 1

/-- Whether an entry comes before another in a log. -/
def Before (a b : LogEntry) : Prop := a.rank < b.rank

instance : Std.Irrefl Before := ⟨fun a => Nat.lt_irrefl a.rank⟩

instance : Std.Antisymm Before := ⟨fun _ _ h h' => absurd h (Nat.lt_asymm h')⟩

theorem before_of_index_lt {a b : LogEntry} (h : a.index < b.index) : a.Before b := by
  rw [Before]
  cases a <;> cases b <;> simp only [index, rank] at h ⊢ <;> omega

theorem rank_of_place? {a : LogEntry} {i : Nat} (h : a.place? = some i) : a.rank = 2 * i + 1 := by
  cases a with
  | batch j es => rw [rank, Option.some.inj h]
  | checkpoint j hash => exact nomatch h

theorem rank_of_mark? {a : LogEntry} {i : Nat} (h : a.mark? = some i) : a.rank = 2 * i := by
  cases a with
  | batch j es => exact nomatch h
  | checkpoint j hash => rw [rank, Option.some.inj h]

end LogEntry

open LogEntry (Before)

/-- The places of the batches of a log. -/
def places (entries : List LogEntry) : List Nat := entries.filterMap LogEntry.place?

/-- The places of the checkpoints of a log. -/
def marks (entries : List LogEntry) : List Nat := entries.filterMap LogEntry.mark?

/-- The batches of a log. -/
def payloads (entries : List LogEntry) : List (List Envelope) :=
  entries.filterMap LogEntry.envelopes?

theorem mem_places {entries : List LogEntry} {i : Nat} :
    i ∈ places entries ↔ ∃ es, .batch i es ∈ entries := by
  rw [places, List.mem_filterMap]
  constructor
  · rintro ⟨entry, hentry, hplace⟩
    cases entry with
    | batch j es => exact ⟨es, Option.some.inj hplace ▸ hentry⟩
    | checkpoint j hash => exact nomatch hplace
  · rintro ⟨es, hes⟩
    exact ⟨_, hes, rfl⟩

theorem mem_marks {entries : List LogEntry} {i : Nat} :
    i ∈ marks entries ↔ ∃ hash, .checkpoint i hash ∈ entries := by
  rw [marks, List.mem_filterMap]
  constructor
  · rintro ⟨entry, hentry, hmark⟩
    cases entry with
    | batch j es => exact nomatch hmark
    | checkpoint j hash => exact ⟨hash, Option.some.inj hmark ▸ hentry⟩
  · rintro ⟨hash, hhash⟩
    exact ⟨_, hhash, rfl⟩

theorem mem_payloads {entries : List LogEntry} {i : Nat} {es : List Envelope}
    (h : .batch i es ∈ entries) : es ∈ payloads entries := List.mem_filterMap.mpr ⟨_, h, rfl⟩

theorem length_payloads (entries : List LogEntry) :
    (payloads entries).length = (places entries).length := by
  induction entries with
  | nil => rfl
  | cons entry rest ih =>
    cases entry with
    | checkpoint i hash => exact ih
    | batch i es => exact congrArg (· + 1) ih

theorem places_append (entries later : List LogEntry) :
    places (entries ++ later) = places entries ++ places later := List.filterMap_append

theorem marks_append (entries later : List LogEntry) :
    marks (entries ++ later) = marks entries ++ marks later := List.filterMap_append

/-! ### Schedules -/

namespace Schedule

variable {s s' : Schedule} {entries : List LogEntry} {entry : LogEntry}

/-- A schedule that says what the entries of a log say. -/
structure Lists (s : Schedule) (entries : List LogEntry) : Prop where
  batch : ∀ i es, s.batches.get? i = some es ↔ .batch i es ∈ entries
  checkpoint : ∀ i hash, s.checkpoints.get? i = some hash ↔ .checkpoint i hash ∈ entries

theorem lists_nil : ({} : Schedule).Lists [] where
  batch _ _ := ⟨nofun, nofun⟩
  checkpoint _ _ := ⟨nofun, nofun⟩

theorem Lists.add (h : s.Lists entries) (hadd : s.add entry = .ok s') :
    s'.Lists (entries ++ [entry]) := by
  cases entry with
  | batch i es =>
    rw [Schedule.add] at hadd
    by_cases htaken : s.batches.contains i = true
    · rw [if_pos htaken] at hadd
      cases hadd
    · rw [if_neg htaken] at hadd
      obtain rfl := Except.ok.inj hadd
      have hfree : s.batches.get? i = none := by simpa [SortedMap.contains] using htaken
      constructor
      · intro j es'
        rw [SortedMap.get?_insert_of_free hfree, h.batch]
        simp
      · intro j hash
        rw [h.checkpoint]
        simp
  | checkpoint i hash =>
    rw [Schedule.add] at hadd
    by_cases htaken : s.checkpoints.contains i = true
    · rw [if_pos htaken] at hadd
      cases hadd
    · rw [if_neg htaken] at hadd
      obtain rfl := Except.ok.inj hadd
      have hfree : s.checkpoints.get? i = none := by simpa [SortedMap.contains] using htaken
      constructor
      · intro j es
        rw [h.batch]
        simp
      · intro j hash'
        rw [SortedMap.get?_insert_of_free hfree, h.checkpoint]
        simp

theorem ofEntries_append_singleton (earlier : List LogEntry) (entry : LogEntry) :
    ofEntries (earlier ++ [entry]) = ofEntries earlier >>= fun s => s.add entry := by
  simp [ofEntries]

/-- The schedule of a log says what its entries say. -/
theorem lists_of_ofEntries (h : ofEntries entries = .ok s) : s.Lists entries := by
  induction entries using List.reverseRecOn generalizing s with
  | nil =>
    obtain rfl := Except.ok.inj h
    exact lists_nil
  | append_singleton earlier entry ih =>
    rw [ofEntries_append_singleton] at h
    cases hearlier : ofEntries earlier with
    | error fault =>
      rw [hearlier] at h
      exact nomatch h
    | ok before =>
      rw [hearlier] at h
      exact (ih hearlier).add h

/-- A batch is added if its place is free. -/
theorem Lists.exists_add_batch (h : s.Lists entries) {i : Nat} {es : List Envelope} :
    (∃ s', s.add (.batch i es) = .ok s') ↔ i ∉ places entries := by
  have htaken : s.batches.contains i = true ↔ i ∈ places entries := by
    rw [SortedMap.contains, Option.isSome_iff_exists, mem_places]
    exact exists_congr fun es => h.batch i es
  rw [Schedule.add]
  by_cases hi : i ∈ places entries
  · rw [if_pos (htaken.mpr hi)]
    constructor
    · rintro ⟨s', hs'⟩
      cases hs'
    · exact fun hfree => absurd hi hfree
  · rw [if_neg (hi ∘ htaken.mp)]
    exact ⟨fun _ => hi, fun _ => ⟨_, rfl⟩⟩

/-- A checkpoint is added if its place is free. -/
theorem Lists.exists_add_checkpoint (h : s.Lists entries) {i : Nat} {hash : String} :
    (∃ s', s.add (.checkpoint i hash) = .ok s') ↔ i ∉ marks entries := by
  have htaken : s.checkpoints.contains i = true ↔ i ∈ marks entries := by
    rw [SortedMap.contains, Option.isSome_iff_exists, mem_marks]
    exact exists_congr fun hash => h.checkpoint i hash
  rw [Schedule.add]
  by_cases hi : i ∈ marks entries
  · rw [if_pos (htaken.mpr hi)]
    constructor
    · rintro ⟨s', hs'⟩
      cases hs'
    · exact fun hfree => absurd hi hfree
  · rw [if_neg (hi ∘ htaken.mp)]
    exact ⟨fun _ => hi, fun _ => ⟨_, rfl⟩⟩

theorem Lists.exists_add_iff (h : s.Lists entries) {entry : LogEntry}
    (hbatches : (places entries).Nodup) (hcheckpoints : (marks entries).Nodup) :
    (∃ s', s.add entry = .ok s') ↔
      (places (entries ++ [entry])).Nodup ∧ (marks (entries ++ [entry])).Nodup := by
  rw [places_append, marks_append]
  cases entry with
  | batch i es =>
    have hplaces : places [.batch i es] = [i] := rfl
    have hmarks : marks [.batch i es] = [] := rfl
    rw [h.exists_add_batch, hplaces, hmarks, List.append_nil, and_iff_left hcheckpoints,
      ← List.concat_eq_append, List.nodup_concat, and_iff_left hbatches]
  | checkpoint i hash =>
    have hplaces : places [.checkpoint i hash] = [] := rfl
    have hmarks : marks [.checkpoint i hash] = [i] := rfl
    rw [h.exists_add_checkpoint, hplaces, hmarks, List.append_nil, and_iff_right hbatches,
      ← List.concat_eq_append, List.nodup_concat, and_iff_left hcheckpoints]

/-- **A log has a schedule just if it has no two entries of a kind at a place**, in whatever order
they come. -/
theorem exists_ofEntries_iff (entries : List LogEntry) :
    (∃ s, ofEntries entries = .ok s) ↔ (places entries).Nodup ∧ (marks entries).Nodup := by
  induction entries using List.reverseRecOn with
  | nil => exact ⟨fun _ => ⟨List.nodup_nil, List.nodup_nil⟩, fun _ => ⟨{}, rfl⟩⟩
  | append_singleton earlier entry ih =>
    rw [ofEntries_append_singleton]
    cases hearlier : ofEntries earlier with
    | error fault =>
      rw [hearlier] at ih
      constructor
      · rintro ⟨s, hs⟩
        exact nomatch hs
      · rintro ⟨hbatches, hcheckpoints⟩
        rw [places_append] at hbatches
        rw [marks_append] at hcheckpoints
        obtain ⟨s, hs⟩ := ih.mpr ⟨(List.nodup_append.mp hbatches).1,
          (List.nodup_append.mp hcheckpoints).1⟩
        exact nomatch hs
    | ok s =>
      obtain ⟨hbatches, hcheckpoints⟩ := ih.mp ⟨s, hearlier⟩
      exact (lists_of_ofEntries hearlier).exists_add_iff hbatches hcheckpoints

/-- A log in order has a schedule. -/
theorem exists_ofEntries (h : entries.Pairwise Before) : ∃ s, ofEntries entries = .ok s := by
  have hbatches : (places entries).Nodup := by
    refine List.pairwise_filterMap.mpr (h.imp ?_)
    intro a b hab i hi j hj
    rw [Before, LogEntry.rank_of_place? hi, LogEntry.rank_of_place? hj] at hab
    omega
  have hcheckpoints : (marks entries).Nodup := by
    refine List.pairwise_filterMap.mpr (h.imp ?_)
    intro a b hab i hi j hj
    rw [Before, LogEntry.rank_of_mark? hi, LogEntry.rank_of_mark? hj] at hab
    omega
  exact (exists_ofEntries_iff entries).mpr ⟨hbatches, hcheckpoints⟩

/-! ### Agendas -/

/-- The checkpoint at a place, if there is one. -/
def checkpointAt (s : Schedule) (index : Nat) : List LogEntry :=
  match s.checkpoints.get? index with
  | some hash => [.checkpoint index hash]
  | none => []

/-- What a replay goes through, from a place on and for a number of places. -/
def agenda (s : Schedule) (index : Nat) : Nat → List LogEntry
  | 0 => []
  | n + 1 => s.checkpointAt index ++ .batch index (s.batch index) :: s.agenda (index + 1) n

/-- Whether an entry is what the schedule has at its place; where no batch is recorded, it has an
empty one. -/
def Holds (s : Schedule) : LogEntry → Prop
  | .batch i es => s.batch i = es
  | .checkpoint i hash => s.checkpoints.get? i = some hash

theorem mem_checkpointAt {i : Nat} :
    entry ∈ s.checkpointAt i ↔ ∃ hash, entry = .checkpoint i hash ∧ s.Holds entry := by
  rw [checkpointAt]
  cases hget : s.checkpoints.get? i with
  | none =>
    refine ⟨nofun, ?_⟩
    rintro ⟨hash, rfl, hholds⟩
    exact nomatch hget.symm.trans hholds
  | some hash =>
    rw [List.mem_singleton]
    constructor
    · rintro rfl
      exact ⟨hash, rfl, hget⟩
    · rintro ⟨hash', rfl, hholds⟩
      exact congrArg _ (Option.some.inj (Eq.symm (hget.symm.trans hholds)))

/-- **The agenda of some places is what the schedule has there.** -/
theorem mem_agenda {start n : Nat} :
    entry ∈ s.agenda start n ↔ start ≤ entry.index ∧ entry.index < start + n ∧ s.Holds entry := by
  induction n generalizing start with
  | zero =>
    refine ⟨nofun, ?_⟩
    rintro ⟨hle, hlt, -⟩
    omega
  | succ n ih =>
    rw [agenda, List.mem_append, List.mem_cons, mem_checkpointAt, ih]
    constructor
    · rintro (⟨hash, rfl, hholds⟩ | rfl | ⟨hle, hlt, hholds⟩)
      · exact ⟨Nat.le_refl _, by simp only [LogEntry.index]; omega, hholds⟩
      · exact ⟨Nat.le_refl _, by simp only [LogEntry.index]; omega, rfl⟩
      · exact ⟨by omega, by omega, hholds⟩
    · rintro ⟨hle, hlt, hholds⟩
      by_cases hstart : entry.index = start
      · cases entry with
        | batch i es =>
          obtain rfl : i = start := hstart
          obtain rfl : s.batch i = es := hholds
          exact Or.inr (Or.inl rfl)
        | checkpoint i hash =>
          obtain rfl : i = start := hstart
          exact Or.inl ⟨hash, rfl, hholds⟩
      · exact Or.inr (Or.inr ⟨by omega, by omega, hholds⟩)

theorem agenda_ascending (s : Schedule) (start n : Nat) : (s.agenda start n).Pairwise Before := by
  induction n generalizing start with
  | zero => exact List.Pairwise.nil
  | succ n ih =>
    have hlater : ∀ {a : LogEntry}, a.index = start →
        ∀ b ∈ s.agenda (start + 1) n, a.Before b := by
      intro a ha b hb
      exact LogEntry.before_of_index_lt (by have := (mem_agenda.mp hb).1; omega)
    have htail : (.batch start (s.batch start) :: s.agenda (start + 1) n).Pairwise Before :=
      List.pairwise_cons.mpr ⟨hlater rfl, ih (start + 1)⟩
    rw [agenda, checkpointAt]
    cases s.checkpoints.get? start with
    | none => exact htail
    | some hash =>
      refine List.pairwise_cons.mpr ⟨?_, htail⟩
      intro b hb
      rcases List.mem_cons.mp hb with rfl | hb
      · exact Nat.lt_succ_self _
      · exact hlater rfl b hb

/-- What the schedule has at a place is recorded, or is an empty batch where none is. -/
theorem Lists.holds_iff (h : s.Lists entries) :
    s.Holds entry ↔ entry ∈ entries ∨ ∃ i, i ∉ places entries ∧ entry = .batch i [] := by
  cases entry with
  | checkpoint i hash => exact (h.checkpoint i hash).trans (by simp)
  | batch i es =>
    rw [Holds, Schedule.batch, SortedMap.getD]
    cases hget : s.batches.get? i with
    | some es' =>
      have hmem := (h.batch i es').mp hget
      constructor
      · rintro rfl
        exact Or.inl hmem
      · rintro (hes | ⟨j, hfree, heq⟩)
        · exact Option.some.inj (hget.symm.trans ((h.batch i es).mpr hes))
        · obtain ⟨rfl, rfl⟩ := LogEntry.batch.inj heq
          exact absurd (mem_places.mpr ⟨es', hmem⟩) hfree
    | none =>
      have hfree : ∀ es', .batch i es' ∉ entries := by
        intro es' hes'
        rw [(h.batch i es').mpr hes'] at hget
        cases hget
      constructor
      · rintro rfl
        refine Or.inr ⟨i, ?_, rfl⟩
        intro hi
        obtain ⟨es', hes'⟩ := mem_places.mp hi
        exact hfree es' hes'
      · rintro (hes | ⟨j, -, heq⟩)
        · exact absurd hes (hfree es)
        · exact (LogEntry.batch.inj heq).2.symm

/-- **A log without gaps is its own agenda.** -/
theorem Lists.agenda_eq (h : s.Lists entries) (hascending : entries.Pairwise Before) {start n : Nat}
    (hplaces : places entries = List.range' start n)
    (hin : ∀ entry ∈ entries, entry.index ∈ places entries) : s.agenda start n = entries := by
  refine (agenda_ascending s start n).eq_of_mem_iff hascending ?_
  intro entry
  rw [mem_agenda, h.holds_iff]
  constructor
  · rintro ⟨hle, hlt, hentry | ⟨i, hfree, rfl⟩⟩
    · exact hentry
    · rw [hplaces] at hfree
      exact absurd (List.mem_range'_1.mpr ⟨hle, hlt⟩) hfree
  · intro hentry
    have hindex := hin entry hentry
    rw [hplaces, List.mem_range'_1] at hindex
    exact ⟨hindex.1, hindex.2, Or.inl hentry⟩

end Schedule

/-! ### Executors that go through entries -/

namespace Executor

variable {x y z : Executor} {entries : List LogEntry}

/-- An executor **goes through** entries: a checkpoint is for the batch that comes next and has the
hash of the executor at that moment; a batch is the one that comes next, and is applied. -/
def Traverses (x : Executor) : List LogEntry → Executor → Prop
  | [], z => z = x
  | .checkpoint i hash :: rest, z => i = x.batches ∧ hash = x.stateHash ∧ x.Traverses rest z
  | .batch i es :: rest, z => i = x.batches ∧ (x.applyBatch es).2.Traverses rest z

theorem Traverses.append {later : List LogEntry} (h : x.Traverses entries y)
    (hlater : y.Traverses later z) : x.Traverses (entries ++ later) z := by
  induction entries generalizing x with
  | nil =>
    obtain rfl : y = x := h
    exact hlater
  | cons entry rest ih =>
    cases entry with
    | checkpoint i hash => exact ⟨h.1, h.2.1, ih h.2.2⟩
    | batch i es => exact ⟨h.1, ih h.2⟩

/-- Going through entries is applying their batches. -/
theorem Traverses.eq_applyBatches (h : x.Traverses entries z) :
    z = x.applyBatches (payloads entries) := by
  induction entries generalizing x with
  | nil => exact h
  | cons entry rest ih =>
    cases entry with
    | checkpoint i hash => exact ih h.2.2
    | batch i es => exact ih h.2

/-- The batches that are gone through have the places from the counter on, as long as the counter
does not come to its bound. -/
theorem Traverses.places_eq (h : x.Traverses entries z)
    (hbound : x.batches + (payloads entries).length < Json.wordBound) :
    places entries = List.range' x.batches (payloads entries).length := by
  induction entries generalizing x with
  | nil => rfl
  | cons entry rest ih =>
    cases entry with
    | checkpoint i hash => exact ih h.2.2 hbound
    | batch i es =>
      change x.batches + ((payloads rest).length + 1) < Json.wordBound at hbound
      have hnext := batches_applyBatch (x := x) es (by omega)
      have hrest := ih h.2 (by omega)
      rw [hnext] at hrest
      exact congr (congrArg List.cons h.1) hrest

/-- Like executors go through the same entries. -/
theorem Alike.traverses (halike : x.Alike y) (h : x.Traverses entries z) :
    y.Traverses entries (y.applyBatches (payloads entries)) := by
  induction entries generalizing x y with
  | nil => exact rfl
  | cons entry rest ih =>
    cases entry with
    | checkpoint i hash =>
      exact ⟨h.1.trans halike.batches, h.2.1.trans halike.stateHash, ih halike h.2.2⟩
    | batch i es => exact ⟨h.1.trans halike.batches, ih (halike.applyBatch es) h.2⟩

/-! ### Replays -/

theorem divergence?_eq_none {s : Schedule} {i : Nat} :
    s.divergence? i x = none ↔ ∀ hash, s.checkpoints.get? i = some hash → x.stateHash = hash := by
  rw [Schedule.divergence?]
  cases s.checkpoints.get? i with
  | none => exact ⟨nofun, fun _ => rfl⟩
  | some expected =>
    by_cases heq : x.stateHash = expected
    · simp [heq]
    · simp [heq]

/-- Going through one place of an agenda. -/
theorem traverses_agenda_succ {s : Schedule} {n : Nat} :
    x.Traverses (s.agenda x.batches (n + 1)) z ↔ s.divergence? x.batches x = none ∧
      (x.applyBatch (s.batch x.batches)).2.Traverses (s.agenda (x.batches + 1) n) z := by
  rw [divergence?_eq_none, Schedule.agenda, Schedule.checkpointAt]
  cases s.checkpoints.get? x.batches with
  | none => simp [Traverses]
  | some hash => simp [Traverses, eq_comm]

theorem replayFrom_of_divergence {s : Schedule} {d : Divergence} (k n : Nat)
    (h : s.divergence? x.batches x = some d) :
    x.replayFrom s x.batches k (n + 1) = (⟨false, k, some d⟩, x) := by
  rw [replayFrom, h]

theorem replayFrom_succ {s : Schedule} (k n : Nat) (h : s.divergence? x.batches x = none)
    (hbound : x.batches + 1 < Json.wordBound) :
    x.replayFrom s x.batches k (n + 1) =
      (x.applyBatch (s.batch x.batches)).2.replayFrom s
        (x.applyBatch (s.batch x.batches)).2.batches (k + 1) n := by
  rw [replayFrom, h, batches_applyBatch _ hbound]

/-- **A replay completes just if its agenda is gone through**, and then it has counted every
place. -/
theorem replayFrom_completed {s : Schedule} {k n : Nat} {result : ReplayResult}
    (hbound : x.batches + n < Json.wordBound) :
    x.replayFrom s x.batches k n = (result, z) ∧ result.completed = true ↔
      result = ⟨true, k + n, none⟩ ∧ x.Traverses (s.agenda x.batches n) z := by
  induction n generalizing x k with
  | zero =>
    constructor
    · rintro ⟨h, -⟩
      obtain ⟨rfl, rfl⟩ := Prod.mk.inj h
      exact ⟨rfl, rfl⟩
    · rintro ⟨rfl, h⟩
      obtain rfl : z = x := h
      exact ⟨rfl, rfl⟩
  | succ n ih =>
    rw [traverses_agenda_succ]
    cases hdivergence : s.divergence? x.batches x with
    | some d =>
      rw [replayFrom_of_divergence k n hdivergence]
      constructor
      · rintro ⟨h, hcompleted⟩
        obtain ⟨rfl, -⟩ := Prod.mk.inj h
        exact nomatch hcompleted
      · rintro ⟨-, h, -⟩
        exact nomatch h
    | none =>
      have hnext := batches_applyBatch (x := x) (s.batch x.batches) (by omega)
      rw [replayFrom_succ k n hdivergence (by omega), ih (by omega), hnext, Nat.add_right_comm,
        Nat.add_assoc]
      simp

end Executor

/-- A replay of a log begins if it was recorded under the same settings, has no two entries of a
kind at a place, and stays below the bound of the counter, and if its initial snapshot is
accepted. -/
theorem BatchLog.check_eq_ok {log : BatchLog} {config : ModuleConfig} {s : Schedule}
    {m : Contents} : log.check config = .ok (s, m) ↔ config = log.module ∧
      Schedule.ofEntries log.entries = .ok s ∧ log.initial.batches + log.total < Json.wordBound ∧
      log.initial.check = .ok m := by
  simp only [check]
  by_cases hconfig : config = log.module
  · rw [if_pos hconfig]
    rcases Schedule.ofEntries log.entries with fault | s'
    · exact ⟨nofun, fun h => nomatch h.2.1⟩
    · change (if _ < _ then _ else _) = _ ↔ _
      by_cases hbound : log.initial.batches + log.total < Json.wordBound
      · rw [if_pos hbound]
        rcases log.initial.check with fault | m'
        · exact ⟨nofun, fun h => nomatch h.2.2.2⟩
        · constructor
          · intro h
            obtain ⟨rfl, rfl⟩ := Prod.mk.inj (Except.ok.inj h)
            exact ⟨hconfig, rfl, hbound, rfl⟩
          · rintro ⟨-, hs, -, hm⟩
            rw [Except.ok.inj hs, ← Except.ok.inj hm]
            rfl
      · rw [if_neg hbound]
        exact ⟨nofun, fun h => absurd h.2.2.1 hbound⟩
  · rw [if_neg hconfig]
    exact ⟨nofun, fun h => absurd h.1 hconfig⟩

namespace Executor

variable {x y z : Executor} {log : BatchLog} {result : ReplayResult}

theorem replay_eq_ok : y.replay log = (.ok result, z) ↔ ∃ s m,
    log.check y.config.module = .ok (s, m) ∧ (starting y.config m log.initial.batches).replayFrom s
      log.initial.batches 0 log.total = (result, z) := by
  rw [replay]
  cases hcheck : log.check y.config.module with
  | error fault => exact ⟨nofun, nofun⟩
  | ok p =>
    obtain ⟨s, m⟩ := p
    constructor
    · intro h
      obtain ⟨hresult, hz⟩ := Prod.mk.inj h
      exact ⟨s, m, rfl, Prod.ext (Except.ok.inj hresult) hz⟩
    · rintro ⟨s', m', hp, h⟩
      obtain ⟨rfl, rfl⟩ := Prod.mk.inj (Except.ok.inj hp)
      exact congrArg (fun p => (Except.ok p.1, p.2)) h

/-- **A replay completes just if it begins and the agenda of its log is gone through.** -/
theorem replay_completed : y.replay log = (.ok result, z) ∧ result.completed = true ↔ ∃ s m,
    log.check y.config.module = .ok (s, m) ∧ result = ⟨true, log.total, none⟩ ∧
      (starting y.config m log.initial.batches).Traverses
        (s.agenda log.initial.batches log.total) z := by
  have hreplay : ∀ {s m}, log.check y.config.module = .ok (s, m) →
      ((starting y.config m log.initial.batches).replayFrom s
        log.initial.batches 0 log.total = (result, z) ∧ result.completed = true ↔
          result = ⟨true, log.total, none⟩ ∧ (starting y.config m log.initial.batches).Traverses
            (s.agenda log.initial.batches log.total) z) := by
    intro s m hcheck
    have hbound := (BatchLog.check_eq_ok.mp hcheck).2.2.1
    refine (replayFrom_completed (x := starting y.config m log.initial.batches) (k := 0)
      hbound).trans ?_
    rw [Nat.zero_add]
    rfl
  rw [replay_eq_ok]
  constructor
  · rintro ⟨⟨s, m, hcheck, h⟩, hcompleted⟩
    exact ⟨s, m, hcheck, (hreplay hcheck).mp ⟨h, hcompleted⟩⟩
  · rintro ⟨s, m, hcheck, h⟩
    obtain ⟨hreplayed, hcompleted⟩ := (hreplay hcheck).mpr h
    exact ⟨⟨s, m, hcheck, hreplayed⟩, hcompleted⟩

end Executor

end Custody
