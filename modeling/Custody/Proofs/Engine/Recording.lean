import Custody.Proofs.Engine.Replay

/-!
# Recordings and their replay

A recorder is given batches under ascending places, and possibly skips some.  A replay takes the
number of batches for the number of places, so it ends too early by the number of places that were
skipped, and says that it is complete all the same: of a recording it passes the entries whose
places it comes to, which are all of them just if no place was skipped.

Where the recorder takes the places from the executor that it has the batches applied to, none is
skipped, and a replay leads to the state that was recorded.

* `Executor.Recording`: the recordings that begin with an executor.
* `Recorder.Orderly`, `Recording.orderly`: what is kept while recording.
* `Executor.completed_replay`: **what a completed replay has passed.**
* `Executor.gapped`, `Executor.skipped_by_replay`: a recording with a gap, of which a completed
  replay skips a batch.
* `Executor.replay_agrees`: **a replay of what a recorder had applied leads to the same state.**
-/

namespace Custody

open LogEntry (Before)

/-! ### Places without a gap -/

/-- Ascending numbers, as many as there are in a range and all from it, are the range. -/
theorem eq_range'_of_pairwise {l : List Nat} {start : Nat} (h : l.Pairwise (· < ·))
    (hin : ∀ i ∈ l, start ≤ i ∧ i < start + l.length) : l = List.range' start l.length := by
  induction l generalizing start with
  | nil => rfl
  | cons a rest ih =>
    obtain ⟨ha, hrest⟩ := List.pairwise_cons.mp h
    have hstart := hin a List.mem_cons_self
    have hrange : rest = List.range' (start + 1) rest.length := by
      refine ih hrest ?_
      intro i hi
      have hlt := ha i hi
      have hle := (hin i (List.mem_cons_of_mem _ hi)).2
      rw [List.length_cons] at hle
      omega
    have hfirst : a = start := by
      cases rest with
      | nil =>
        rw [List.length_cons, List.length_nil] at hstart
        omega
      | cons b rest =>
        rw [List.length_cons, List.range'_succ] at hrange
        have hb : b = start + 1 := (List.cons.inj hrange).1
        have hlt := ha b List.mem_cons_self
        omega
    rw [List.length_cons, List.range'_succ, ← hrange, hfirst]

theorem pairwise_places {entries : List LogEntry} (h : entries.Pairwise Before) :
    (places entries).Pairwise (· < ·) := by
  refine List.pairwise_filterMap.mpr (h.imp ?_)
  intro a b hab i hi j hj
  rw [Before] at hab
  cases a with
  | checkpoint k hash => cases hi
  | batch k es =>
    cases b with
    | checkpoint l hash => cases hj
    | batch l es' =>
      obtain rfl : k = i := Option.some.inj hi
      obtain rfl : l = j := Option.some.inj hj
      simp only [LogEntry.rank] at hab
      omega

/-! ### What a recorder keeps to -/

namespace Recorder

variable {r r' : Recorder} {x z : Executor} {i : Nat} {es : List Envelope} {hash : Option String}

/-- What a batch is taken down with. -/
def notes (r : Recorder) (i : Nat) (es : List Envelope) (hash : Option String) : List LogEntry :=
  r.checkpoints i hash ++ [.batch i es]

theorem entries_next (r : Recorder) (i : Nat) (es : List Envelope) (hash : Option String) :
    (record.next r i es hash).entries = r.entries ++ r.notes i es hash :=
  List.append_assoc _ _ _

theorem checkpoints_cases (r : Recorder) (i : Nat) (hash : Option String) :
    r.checkpoints i hash = [] ∨ ∃ h, r.checkpoints i hash = [.checkpoint i h] := by
  cases hash with
  | none => exact Or.inl rfl
  | some h =>
    rw [checkpoints]
    by_cases hdue : r.isDue i = true
    · exact Or.inr ⟨h, if_pos hdue⟩
    · exact Or.inl (if_neg hdue)

theorem index_of_mem_notes {entry : LogEntry} (h : entry ∈ r.notes i es hash) :
    entry.index = i := by
  rw [notes] at h
  rcases r.checkpoints_cases i hash with hnone | ⟨hash', hone⟩
  · rw [hnone, List.nil_append, List.mem_singleton] at h
    rw [h, LogEntry.index]
  · rw [hone, List.singleton_append, List.mem_pair] at h
    rcases h with rfl | rfl
    · rfl
    · rfl

theorem pairwise_notes (r : Recorder) (i : Nat) (es : List Envelope) (hash : Option String) :
    (r.notes i es hash).Pairwise Before := by
  rw [notes]
  rcases r.checkpoints_cases i hash with hnone | ⟨hash', hone⟩
  · rw [hnone]
    exact List.pairwise_singleton _ _
  · rw [hone]
    exact List.pairwise_pair.mpr (Nat.lt_succ_self _)

theorem places_notes (r : Recorder) (i : Nat) (es : List Envelope) (hash : Option String) :
    places (r.notes i es hash) = [i] := by
  rw [notes]
  rcases r.checkpoints_cases i hash with hnone | ⟨hash', hone⟩
  · rw [hnone]
    rfl
  · rw [hone]
    rfl

theorem record_eq_ok : r.record i es hash = .ok r' ↔
    (∀ previous, r.last = some previous → previous < i) ∧ r' = record.next r i es hash := by
  rw [record]
  cases r.last with
  | none => simp [eq_comm]
  | some previous =>
    by_cases hlt : previous < i
    · simp [hlt, eq_comm]
    · simp [hlt]

/-- What a recorder that began at a place keeps to. -/
structure Orderly (start : Nat) (r : Recorder) : Prop where
  ascending : r.entries.Pairwise Before
  start_le : ∀ entry ∈ r.entries, start ≤ entry.index
  le_last : ∀ entry ∈ r.entries, ∃ last, r.last = some last ∧ entry.index ≤ last
  /-- A checkpoint is followed by its batch. -/
  paired : ∀ entry ∈ r.entries, entry.index ∈ places r.entries
  recorded : (places r.entries).length = r.recorded

theorem orderly_withInterval (x : Executor) (interval start : Nat) :
    (withInterval x interval).Orderly start :=
  ⟨.nil, nofun, nofun, nofun, rfl⟩

theorem Orderly.record {start : Nat} (h : r.Orderly start) (hstart : start ≤ i)
    (hrecord : r.record i es hash = .ok r') : r'.Orderly start := by
  obtain ⟨hlast, rfl⟩ := record_eq_ok.mp hrecord
  have hentries := entries_next r i es hash
  have hplaces : places (record.next r i es hash).entries = places r.entries ++ [i] := by
    rw [hentries, places, List.filterMap_append]
    exact congrArg _ (places_notes r i es hash)
  have hlt : ∀ entry ∈ r.entries, entry.index < i := by
    intro entry hentry
    obtain ⟨last, hsome, hle⟩ := h.le_last entry hentry
    exact Nat.lt_of_le_of_lt hle (hlast last hsome)
  constructor
  · rw [hentries, List.pairwise_append]
    refine ⟨h.ascending, pairwise_notes r i es hash, ?_⟩
    intro a ha b hb
    refine LogEntry.before_of_index_lt ?_
    rw [index_of_mem_notes hb]
    exact hlt a ha
  · intro entry hentry
    rw [hentries] at hentry
    rcases List.mem_append.mp hentry with hold | hnew
    · exact h.start_le entry hold
    · rwa [index_of_mem_notes hnew]
  · intro entry hentry
    refine ⟨i, rfl, ?_⟩
    rw [hentries] at hentry
    rcases List.mem_append.mp hentry with hold | hnew
    · exact Nat.le_of_lt (hlt entry hold)
    · exact Nat.le_of_eq (index_of_mem_notes hnew)
  · intro entry hentry
    rw [hplaces]
    rw [hentries] at hentry
    rcases List.mem_append.mp hentry with hold | hnew
    · exact List.mem_append_left _ (h.paired entry hold)
    · rw [index_of_mem_notes hnew]
      exact List.mem_append_right _ List.mem_cons_self
  · rw [hplaces, List.length_append, h.recorded]
    rfl

/-- The hash of an executor, if a checkpoint is due. -/
def dueHash (r : Recorder) (x : Executor) : Option String :=
  if r.isDue x.batches then some x.stateHash else none

theorem apply_eq (r : Recorder) (x : Executor) (batch : List Envelope) : r.apply x batch =
    (r.record x.batches batch (r.dueHash x)).map fun r' =>
      ((x.applyBatch batch).1, r', (x.applyBatch batch).2) := by
  rw [apply, dueHash]
  rcases r.record x.batches batch (if r.isDue x.batches then some x.stateHash else none) with _ | _
  · rfl
  · rfl

theorem record_of_apply {batch : List Envelope} {report : BatchReport}
    (h : r.apply x batch = .ok (report, r', z)) :
    r.record x.batches batch (r.dueHash x) = .ok r' := by
  rw [apply_eq] at h
  cases hrecord : r.record x.batches batch (r.dueHash x) with
  | error fault =>
    rw [hrecord] at h
    exact nomatch h
  | ok next =>
    rw [hrecord] at h
    obtain rfl : next = r' := (Prod.mk.inj (Prod.mk.inj (Except.ok.inj h)).2).1
    rfl

end Recorder

namespace Executor

variable {x y z : Executor} {r r' : Recorder}

/-- The recordings that begin with the state of an executor and take down batches under places from
its counter on; a batch that the recorder has applied may be applied to any executor. -/
inductive Recording (x : Executor) : Recorder → Prop where
  | start (interval : Nat) : Recording x (.withInterval x interval)
  | record {r r' : Recorder} {i : Nat} {es : List Envelope} {hash : Option String}
      (h : Recording x r) (hstart : x.batches ≤ i) (hrecord : r.record i es hash = .ok r') :
      Recording x r'
  | apply {r r' : Recorder} {y y' : Executor} {batch : List Envelope} {report : BatchReport}
      (h : Recording x r) (hstart : x.batches ≤ y.batches)
      (happly : r.apply y batch = .ok (report, r', y')) : Recording x r'

/-- **Recordings are in order.** -/
theorem Recording.orderly (h : x.Recording r) : r.Orderly x.batches := by
  induction h with
  | start interval => exact Recorder.orderly_withInterval x interval x.batches
  | record h hstart hrecord ih => exact ih.record hstart hrecord
  | apply h hstart happly ih => exact ih.record hstart (Recorder.record_of_apply happly)

/-- A recording keeps the snapshot and the settings that it began with. -/
theorem Recording.begins (h : x.Recording r) :
    r.initial = x.capture ∧ r.module = x.config.module := by
  induction h with
  | start interval => exact ⟨rfl, rfl⟩
  | record h hstart hrecord ih =>
    obtain ⟨-, rfl⟩ := Recorder.record_eq_ok.mp hrecord
    exact ih
  | apply h hstart happly ih =>
    obtain ⟨-, rfl⟩ := Recorder.record_eq_ok.mp (Recorder.record_of_apply happly)
    exact ih

/-! ### What a completed replay has passed -/

/-- A recording of two batches, with a place skipped between them; the second makes an asset. -/
def gapped : Recorder :=
  Recorder.record.next (Recorder.record.next (.start (new {})) 0 [] none) 2
    [⟨⟨"alice"⟩, 1, .createAsset ⟨"tea"⟩ "Tea" 5 "kg" none []⟩] none

theorem recording_gapped : (new {}).Recording gapped := by
  have hfirst : (new {}).Recording (Recorder.record.next (.start (new {})) 0 [] none) :=
    .record (.start _) (Nat.le_refl 0) (Recorder.record_eq_ok.mpr ⟨nofun, rfl⟩)
  refine .record hfirst (Nat.zero_le 2) (Recorder.record_eq_ok.mpr ⟨?_, rfl⟩)
  intro previous hprevious
  obtain rfl : 0 = previous := Option.some.inj hprevious
  decide

/-- Its replay applies two empty batches. -/
theorem replay_gapped : (new {}).replay gapped.finish =
    (.ok ⟨true, 2, none⟩, (new {}).applyBatches [[], []]) := by
  have hcheck : gapped.finish.check (new {}).config.module =
      .ok (⟨.ofList [(0, []), (2, [⟨⟨"alice"⟩, 1, .createAsset ⟨"tea"⟩ "Tea" 5 "kg" none []⟩])], ∅⟩,
        ∅) :=
    BatchLog.check_eq_ok.mpr ⟨rfl, rfl, by decide, check_capture (.new {})⟩
  exact (replay_completed.mpr ⟨_, _, hcheck, rfl, rfl, rfl, rfl⟩).1

/-- **What a completed replay has passed.**  From the counter with which the recording began it has
gone, in order, through as many places as there are recorded batches: through every entry that has
one of these places, with an empty batch where none is recorded, and through no other entry.  So it
has passed the entries of the log just if no place was skipped. -/
theorem completed_replay {result : ReplayResult} (hr : x.Recording r)
    (hreplay : y.replay r.finish = (.ok result, z)) (hcompleted : result.completed = true) :
    result = ⟨true, r.recorded, none⟩ ∧ ∃ passed,
      (starting y.config x.contents x.batches).Traverses passed z ∧ passed.Pairwise Before ∧
      (∀ entry ∈ r.entries, entry ∈ passed ↔ entry.index < x.batches + r.recorded) ∧
      (∀ entry ∈ passed, entry ∈ r.entries ∨ ∃ i, i ∉ places r.entries ∧ entry = .batch i []) ∧
      (passed = r.entries ↔ places r.entries = List.range' x.batches r.recorded) := by
  obtain ⟨s, m, hcheck, hresult, htraverses⟩ := replay_completed.mp ⟨hreplay, hcompleted⟩
  obtain ⟨-, hs, -, hm⟩ := BatchLog.check_eq_ok.mp hcheck
  have hlists : s.Lists r.entries := Schedule.lists_of_ofEntries hs
  have horderly := hr.orderly
  obtain ⟨hinitial, -⟩ := hr.begins
  have hstart : r.finish.initial.batches = x.batches := congrArg Snapshot.batches hinitial
  obtain rfl : m = x.contents := by
    have hentries := (Snapshot.check_eq_ok.mp hm).2
    rw [show r.finish.initial = x.capture from hinitial] at hentries
    exact hentries.trans (SortedMap.ofList_bindings x.contents)
  rw [hstart] at htraverses
  refine ⟨hresult, _, htraverses, s.agenda_ascending x.batches r.recorded, ?_, ?_, ?_⟩
  · intro entry hentry
    rw [Schedule.mem_agenda]
    refine ⟨fun h => h.2.1, fun hlt => ?_⟩
    exact ⟨horderly.start_le entry hentry, hlt, hlists.holds_iff.mpr (Or.inl hentry)⟩
  · intro entry hentry
    exact hlists.holds_iff.mp (Schedule.mem_agenda.mp hentry).2.2
  · constructor
    · intro hpassed
      rw [← horderly.recorded]
      refine eq_range'_of_pairwise (pairwise_places horderly.ascending) ?_
      intro i hi
      obtain ⟨es, hes⟩ := mem_places.mp hi
      rw [← hpassed] at hes
      obtain ⟨hle, hlt, -⟩ := Schedule.mem_agenda.mp hes
      rw [horderly.recorded]
      exact ⟨hle, hlt⟩
    · intro hplaces
      exact hlists.agenda_eq horderly.ascending hplaces horderly.paired

/-- Of the recording with a gap, the first batch is passed, but not the whole. -/
theorem completed_replay_of_gapped : ∃ passed,
    (new {}).Traverses passed ((new {}).applyBatches [[], []]) ∧
      .batch 0 [] ∈ passed ∧ ¬ passed = gapped.entries := by
  obtain ⟨-, passed, htraverses, -, hmem, -, heq⟩ :=
    completed_replay recording_gapped replay_gapped rfl
  refine ⟨passed, htraverses, ?_, ?_⟩
  · exact (hmem (.batch 0 []) (by decide)).mpr (by decide)
  · rw [heq]
    decide

/-- **A completed replay may have skipped a batch**, here the one that makes an asset. -/
theorem skipped_by_replay : (new {}).Recording gapped ∧
    ((new {}).replay gapped.finish).1 = .ok ⟨true, 2, none⟩ ∧
    ((new {}).replay gapped.finish).2.contents = ∅ ∧
    ∃ entry ∈ gapped.entries, ∀ passed,
      (new {}).Traverses passed ((new {}).replay gapped.finish).2 → entry ∉ passed := by
  rw [replay_gapped]
  refine ⟨recording_gapped, rfl, rfl, .batch 2 _, List.mem_cons_of_mem _ List.mem_cons_self, ?_⟩
  intro passed htraverses hmem
  -- The journal has numbered nothing, so the batches that were passed are empty.
  have hnone : 0 = 0 + (payloads passed).flatten.length := by
    have hnumbered := nextSequence_applyBatches (new {}) (payloads passed)
    rwa [← htraverses.eq_applyBatches] at hnumbered
  have hempty := List.flatten_eq_nil_iff.mp (List.length_eq_zero_iff.mp (by omega)) _
    (mem_payloads hmem)
  cases hempty

end Executor

/-! ### Replays of what a recorder had applied -/

namespace Recorder

variable {r : Recorder} {x z : Executor}

/-- Takes down batches and has them applied, one after the other. -/
def applyAll (r : Recorder) (x : Executor) :
    List (List Envelope) → Except OutOfOrder (Recorder × Executor)
  | [] => .ok (r, x)
  | batch :: rest => do
    let (_, r, x) ← r.apply x batch
    r.applyAll x rest

/-- A recording that an executor, from the state `x` in which it began to the state `z`, has been
through. -/
structure Follows (r : Recorder) (x z : Executor) : Prop where
  recording : x.Recording r
  traverses : x.Traverses r.entries z
  batches : z.batches = x.batches + r.recorded
  last_lt : ∀ previous, r.last = some previous → previous < z.batches

theorem follows_withInterval (x : Executor) (interval : Nat) :
    (withInterval x interval).Follows x x :=
  ⟨.start interval, rfl, rfl, nofun⟩

/-- An executor goes through what a batch of it is taken down with. -/
theorem traverses_notes (r : Recorder) (z : Executor) (batch : List Envelope) :
    z.Traverses (r.notes z.batches batch (r.dueHash z)) (z.applyBatch batch).2 := by
  rw [notes, dueHash]
  by_cases hdue : r.isDue z.batches = true
  · rw [if_pos hdue, checkpoints, if_pos hdue]
    exact ⟨rfl, rfl, rfl, rfl⟩
  · rw [if_neg hdue]
    exact ⟨rfl, rfl⟩

/-- **A batch is always taken down, and is applied.** -/
theorem Follows.apply (h : r.Follows x z) (batch : List Envelope)
    (hbound : z.batches + 1 < Json.wordBound) : ∃ r',
    r.apply z batch = .ok ((z.applyBatch batch).1, r', (z.applyBatch batch).2) ∧
      r'.Follows x (z.applyBatch batch).2 := by
  have happly : r.apply z batch = .ok ((z.applyBatch batch).1,
      record.next r z.batches batch (r.dueHash z), (z.applyBatch batch).2) := by
    rw [apply_eq, record_eq_ok.mpr ⟨h.last_lt, rfl⟩]
    rfl
  have hstart : x.batches ≤ z.batches := h.batches ▸ Nat.le_add_right _ _
  have hnext := Executor.batches_applyBatch batch hbound
  refine ⟨_, happly, .apply h.recording hstart happly, ?_, ?_, ?_⟩
  · rw [entries_next]
    exact h.traverses.append (r.traverses_notes z batch)
  · rw [hnext, h.batches]
    rfl
  · intro previous hprevious
    obtain rfl : z.batches = previous := Option.some.inj hprevious
    rw [hnext]
    exact Nat.lt_succ_self _

theorem Follows.applyAll (h : r.Follows x z) (batches : List (List Envelope))
    (hbound : z.batches + batches.length < Json.wordBound) : ∃ r',
    r.applyAll z batches = .ok (r', z.applyBatches batches) ∧
      r'.Follows x (z.applyBatches batches) := by
  induction batches generalizing r z with
  | nil => exact ⟨r, rfl, h⟩
  | cons batch rest ih =>
    rw [List.length_cons] at hbound
    have hbatches := Executor.batches_applyBatch (x := z) batch (by omega)
    obtain ⟨next, happly, hnext⟩ := h.apply batch (by omega)
    obtain ⟨r', hrest, hr'⟩ := ih hnext (by omega)
    refine ⟨r', ?_, hr'⟩
    rw [Recorder.applyAll, happly]
    exact hrest

/-- A recording that was gone through is replayed in the same way by a like executor. -/
theorem Follows.replay (h : r.Follows x z) (hx : x.Reached) (hbound : z.batches < Json.wordBound)
    {y : Executor} (hmodule : y.config.module = x.config.module) :
    y.replay r.finish = (.ok ⟨true, r.recorded, none⟩,
      (Executor.starting y.config x.contents x.batches).applyBatches (payloads r.entries)) := by
  have horderly := h.recording.orderly
  obtain ⟨hinitial, hrmodule⟩ := h.recording.begins
  obtain ⟨s, hs⟩ := Schedule.exists_ofEntries horderly.ascending
  rw [h.batches] at hbound
  have hplaces : places r.entries = List.range' x.batches r.recorded := by
    have hcount : (payloads r.entries).length = r.recorded := by
      rw [length_payloads, horderly.recorded]
    rw [h.traverses.places_eq (by rwa [hcount]), hcount]
  have hcheck : r.finish.check y.config.module = .ok (s, x.contents) := by
    refine BatchLog.check_eq_ok.mpr ⟨hmodule.trans hrmodule.symm, hs, ?_, ?_⟩
    · rw [show r.finish.initial = x.capture from hinitial, finish]
      exact hbound
    · rw [show r.finish.initial = x.capture from hinitial]
      exact Executor.check_capture hx
  have hagenda : s.agenda x.batches r.recorded = r.entries :=
    (Schedule.lists_of_ofEntries hs).agenda_eq horderly.ascending hplaces horderly.paired
  have halike : x.Alike (Executor.starting y.config x.contents x.batches) :=
    ⟨hmodule.symm, rfl, rfl⟩
  refine (Executor.replay_completed.mpr ⟨s, x.contents, hcheck, rfl, ?_⟩).1
  have hstart : r.finish.initial.batches = x.batches := congrArg Snapshot.batches hinitial
  rw [hstart, show r.finish.total = r.recorded from rfl, hagenda]
  exact halike.traverses h.traverses

end Recorder

namespace Executor

/-- **A replay of what a recorder had applied leads to the same state.**  A recorder takes down and
has applied any batches whatever; the replay of its log, by any executor with the same settings of
the module, completes, having found every checkpoint right, and leaves that executor with the
recorded records, counter and hash.  If the recording began with a new executor, and the capacities
of the journals are the same, so are the entries in them. -/
theorem replay_agrees {x : Executor} (hx : x.Reached) (interval : Nat)
    (batches : List (List Envelope)) (hbound : x.batches + batches.length < Json.wordBound) :
    ∃ r, (Recorder.withInterval x interval).applyAll x batches = .ok (r, x.applyBatches batches) ∧
      ∀ y : Executor, y.config.module = x.config.module → ∃ z,
        y.replay r.finish = (.ok ⟨true, batches.length, none⟩, z) ∧
        z.contents = (x.applyBatches batches).contents ∧
        z.batches = (x.applyBatches batches).batches ∧
        z.stateHash = (x.applyBatches batches).stateHash ∧
        (x = .new x.config → y.config.journalCapacity = x.config.journalCapacity →
          z.journal.entries = (x.applyBatches batches).journal.entries) := by
  obtain ⟨r, happly, hfollows⟩ :=
    (Recorder.follows_withInterval x interval).applyAll batches hbound
  refine ⟨r, happly, ?_⟩
  intro y hmodule
  have hbatches := batches_applyBatches hbound
  have hcount : r.recorded = batches.length := by
    have hfinal := hfollows.batches
    omega
  rw [← hbatches] at hbound
  have hreplay := hfollows.replay hx hbound hmodule
  rw [hcount] at hreplay
  have halike : (starting y.config x.contents x.batches).Alike x := alike_starting hmodule
  have hstate := halike.applyBatches (payloads r.entries)
  have hrecorded := hfollows.traverses.eq_applyBatches
  refine ⟨_, hreplay, ?_, ?_, ?_, ?_⟩
  · rw [hrecorded]
    exact hstate.contents
  · rw [hrecorded]
    exact hstate.batches
  · rw [hrecorded]
    exact hstate.stateHash
  · intro hnew hcapacity
    have hjournal : (starting y.config x.contents x.batches).journal = x.journal := by
      rw [hnew]
      exact congrArg Journal.withCapacity hcapacity
    rw [hrecorded]
    exact congrArg Journal.entries (halike.journal_applyBatches hjournal (payloads r.entries))

/-- A batch that makes an asset and an empty one, with a checkpoint before each, replayed on an
executor that has an asset of its own. -/
theorem replay_agrees_of_two : ∃ r z,
    (Recorder.withInterval (new {}) 0).applyAll (new {})
      [[⟨⟨"alice"⟩, 1, .createAsset ⟨"tea"⟩ "Tea" 5 "kg" none []⟩], []] =
        .ok (r, (new {}).applyBatches
          [[⟨⟨"alice"⟩, 1, .createAsset ⟨"tea"⟩ "Tea" 5 "kg" none []⟩], []]) ∧
    ((new {}).apply ⟨⟨"bob"⟩, 1, .createAsset ⟨"rye"⟩ "Rye" 9 "kg" none []⟩).2.replay r.finish =
      (.ok ⟨true, 2, none⟩, z) ∧
    z.contents = ((new {}).applyBatches
      [[⟨⟨"alice"⟩, 1, .createAsset ⟨"tea"⟩ "Tea" 5 "kg" none []⟩], []]).contents := by
  obtain ⟨r, happly, hreplay⟩ := replay_agrees (.new {}) 0
    [[⟨⟨"alice"⟩, 1, .createAsset ⟨"tea"⟩ "Tea" 5 "kg" none []⟩], []] (by decide)
  obtain ⟨z, hz, hcontents, -⟩ := hreplay
    ((new {}).apply ⟨⟨"bob"⟩, 1, .createAsset ⟨"rye"⟩ "Rye" 9 "kg" none []⟩).2 rfl
  exact ⟨r, z, happly, hz, hcontents⟩

end Executor

end Custody
