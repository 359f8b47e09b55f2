import Custody.Proofs.Engine.Replay

/-!
# Where a replay stops

A log may come from anywhere: its entries stand in any order, leave gaps, and speak of places that
the replay never gets to.  Whether a replay begins can be told from the log and the settings of the
executor; from then on it is the states that the executor is **brought to**, place by place, and the
first of them that has not the hash of its checkpoint is where the replay stops.

* `BatchLog.Replayable`, `BatchLog.exists_check_iff`: a replay begins just if the log is replayable.
* `Executor.replayFrom_add`: as long as nothing diverges, a replay applies batch after batch.
* `Executor.replayFrom_cases`: it stops at the first divergence, or at the end.
* `Executor.replay_stops`: **a replay finds the first divergence, or fails and changes nothing.**
-/

namespace Custody

/-! ### Logs that can be replayed -/

/-- What a replay asks of a log before it begins: the settings of the executor, one entry of a kind
at a place, places of 64 bits, and an initial snapshot that is restored. -/
structure BatchLog.Replayable (log : BatchLog) (x : Executor) : Prop where
  module : x.config.module = log.module
  batches : (places log.entries).Nodup
  checkpoints : (marks log.entries).Nodup
  bound : log.initial.batches + log.total < UInt64.size
  initial : (x.restore log.initial).1 = .ok ()

/-- **A replay begins just if the log is replayable.** -/
theorem BatchLog.exists_check_iff {log : BatchLog} {x : Executor} :
    (∃ s m, log.check x.config.module = .ok (s, m)) ↔ log.Replayable x := by
  constructor
  · rintro ⟨s, m, hcheck⟩
    obtain ⟨hmodule, hs, hbound, hm⟩ := check_eq_ok.mp hcheck
    obtain ⟨hbatches, hcheckpoints⟩ := (Schedule.exists_ofEntries_iff log.entries).mp ⟨s, hs⟩
    exact ⟨hmodule, hbatches, hcheckpoints, hbound,
      Executor.restore_eq_ok.mpr (Snapshot.check_eq_ok.mp hm).1⟩
  · intro h
    obtain ⟨s, hs⟩ :=
      (Schedule.exists_ofEntries_iff log.entries).mpr ⟨h.batches, h.checkpoints⟩
    have hinitial := Executor.restore_eq_ok.mp h.initial
    exact ⟨s, _, check_eq_ok.mpr
      ⟨h.module, hs, h.bound, Snapshot.check_eq_ok.mpr ⟨hinitial, rfl⟩⟩⟩

/-- The batch that is recorded at a place, and an empty one where none is. -/
def recordedAt (entries : List LogEntry) (i : Nat) : List Envelope :=
  (entries.findSome? fun entry =>
    if entry.place? = some i then entry.envelopes? else none).getD []

theorem Schedule.Lists.batch_eq {s : Schedule} {entries : List LogEntry} (h : s.Lists entries)
    (i : Nat) : s.batch i = recordedAt entries i := by
  have hget : s.batches.get? i = entries.findSome? fun entry =>
      if entry.place? = some i then entry.envelopes? else none := by
    cases hfound : entries.findSome? fun entry =>
        if entry.place? = some i then entry.envelopes? else none with
    | some es =>
      obtain ⟨entry, hentry, hes⟩ := List.exists_of_findSome?_eq_some hfound
      obtain ⟨hplace, henvelopes⟩ := Option.ite_none_right_eq_some.mp hes
      cases entry with
      | checkpoint j hash => exact nomatch hplace
      | batch j es' =>
        obtain rfl := Option.some.inj hplace
        obtain rfl := Option.some.inj henvelopes
        exact (h.batch j es').mpr hentry
    | none =>
      refine Option.eq_none_iff_forall_ne_some.mpr fun es hes => ?_
      have hentry := List.findSome?_eq_none_iff.mp hfound _ ((h.batch i es).mp hes)
      rw [LogEntry.place?, if_pos rfl] at hentry
      exact nomatch hentry
  rw [Schedule.batch, SortedMap.getD, hget, recordedAt]

namespace Executor

/-! ### Batch after batch -/

section

variable {y : Executor} {s : Schedule}

/-- The executor after the first `i` batches of a schedule from its own place on. -/
def passed (y : Executor) (s : Schedule) (i : Nat) : Executor :=
  y.applyBatches ((List.range' y.batches i).map s.batch)

theorem passed_succ (y : Executor) (s : Schedule) (i : Nat) :
    y.passed s (i + 1) = ((y.passed s i).applyBatch (s.batch (y.batches + i))).2 := by
  rw [passed, List.range'_1_concat, List.map_append, applyBatches, List.foldl_append]
  rfl

theorem batches_passed (s : Schedule) {i : Nat} (hbound : y.batches + i < Json.wordBound) :
    (y.passed s i).batches = y.batches + i := by
  have hlength : ((List.range' y.batches i).map s.batch).length = i := by
    rw [List.length_map, List.length_range']
  rw [passed, batches_applyBatches (by rwa [hlength]), hlength]

/-- **As long as nothing diverges, a replay applies batch after batch.** -/
theorem replayFrom_add {i : Nat} (k left : Nat) (hbound : y.batches + i < Json.wordBound)
    (h : ∀ j < i, s.divergence? (y.batches + j) (y.passed s j) = none) :
    y.replayFrom s y.batches k (i + left) =
      (y.passed s i).replayFrom s (y.batches + i) (k + i) left := by
  induction i generalizing left with
  | zero => rw [Nat.zero_add]; rfl
  | succ i ih =>
    have hplace := batches_passed (y := y) s (i := i) (by omega)
    have hnext := batches_applyBatch (x := y.passed s i) (s.batch (y.batches + i)) (by omega)
    have hnone := h i (Nat.lt_succ_self i)
    rw [← hplace] at hnone hnext
    rw [Nat.add_right_comm, Nat.add_assoc,
      ih (left + 1) (by omega) fun j hj => h j (Nat.lt_succ_of_lt hj), ← hplace,
      replayFrom_succ (k + i) left hnone (by omega), hnext, hplace, passed_succ]
    rfl

/-- **A replay stops at the first divergence, or else at the end.** -/
theorem replayFrom_cases (s : Schedule) {n : Nat} (hbound : y.batches + n < Json.wordBound) :
    (∃ i d, i < n ∧ (∀ j < i, s.divergence? (y.batches + j) (y.passed s j) = none) ∧
      s.divergence? (y.batches + i) (y.passed s i) = some d ∧
      y.replayFrom s y.batches 0 n = (⟨false, i, some d⟩, y.passed s i)) ∨
    ((∀ i < n, s.divergence? (y.batches + i) (y.passed s i) = none) ∧
      y.replayFrom s y.batches 0 n = (⟨true, n, none⟩, y.passed s n)) := by
  by_cases hsome : ∃ i, i < n ∧ s.divergence? (y.batches + i) (y.passed s i) ≠ none
  · obtain ⟨hlt, hne⟩ := Nat.find_spec hsome
    have hmin := fun j hj => Nat.find_min hsome (m := j) hj
    generalize Nat.find hsome = i at hlt hne hmin
    obtain ⟨d, hd⟩ := Option.ne_none_iff_exists'.mp hne
    have hnone : ∀ j < i, s.divergence? (y.batches + j) (y.passed s j) = none := fun j hj =>
      Decidable.not_not.mp fun hj' => hmin j hj ⟨Nat.lt_trans hj hlt, hj'⟩
    refine Or.inl ⟨i, d, hlt, hnone, hd, ?_⟩
    obtain ⟨left, rfl⟩ := Nat.exists_eq_add_of_lt hlt
    have hplace := batches_passed (y := y) s (i := i) (by omega)
    rw [← hplace] at hd
    rw [Nat.add_assoc, replayFrom_add 0 (left + 1) (by omega) hnone, ← hplace,
      replayFrom_of_divergence (0 + i) left hd, Nat.zero_add]
  · have hnone : ∀ i < n, s.divergence? (y.batches + i) (y.passed s i) = none := fun i hi =>
      Decidable.not_not.mp fun hi' => hsome ⟨i, hi, hi'⟩
    refine Or.inr ⟨hnone, ?_⟩
    have hreplay := replayFrom_add (i := n) 0 0 hbound hnone
    rwa [Nat.add_zero, Nat.zero_add] at hreplay

end

/-! ### From the log alone -/

variable {x : Executor} {log : BatchLog}

/-- The executor when a replay has come to a place: it is put back to where the log begins, and has
applied what is recorded at the places before. -/
def broughtTo (x : Executor) (log : BatchLog) (i : Nat) : Executor :=
  (x.restore log.initial).2.applyBatches
    ((List.range' log.initial.batches (i - log.initial.batches)).map (recordedAt log.entries))

/-- A place that the replay of a log gets to has a checkpoint, and its hash is not the one of the
executor that is brought there. -/
structure Diverges (x : Executor) (log : BatchLog) (i : Nat) (hash : String) : Prop where
  le : log.initial.batches ≤ i
  lt : i < log.initial.batches + log.total
  checkpoint : .checkpoint i hash ∈ log.entries
  differs : hash ≠ (x.broughtTo log i).stateHash

theorem divergence?_eq_some {s : Schedule} {entries : List LogEntry} (h : s.Lists entries) {i : Nat}
    {y : Executor} {d : Divergence} : s.divergence? i y = some d ↔
      ∃ hash, .checkpoint i hash ∈ entries ∧ hash ≠ y.stateHash ∧ d = ⟨i, hash, y.stateHash⟩ := by
  rw [Schedule.divergence?]
  cases hget : s.checkpoints.get? i with
  | none =>
    constructor
    · intro hd
      cases hd
    · rintro ⟨hash, hentry, -⟩
      rw [(h.checkpoint i hash).mpr hentry] at hget
      cases hget
  | some expected =>
    have hentry := (h.checkpoint i expected).mp hget
    constructor
    · intro hd
      obtain ⟨hne, hd⟩ := Option.ite_none_left_eq_some.mp hd
      exact ⟨expected, hentry, Ne.symm hne, (Option.some.inj hd).symm⟩
    · rintro ⟨hash, hhash, hne, rfl⟩
      obtain rfl := Option.some.inj (hget.symm.trans ((h.checkpoint i hash).mpr hhash))
      exact if_neg (Ne.symm hne)

theorem batches_restore (h : log.Replayable x) :
    (x.restore log.initial).2.batches = log.initial.batches := by
  rw [restore_of_acceptable x (restore_eq_ok.mp h.initial)]
  rfl

/-- What a replay passes is what the executor is brought to. -/
theorem passed_restore {s : Schedule} (h : log.Replayable x) (hs : s.Lists log.entries) (i : Nat) :
    (x.restore log.initial).2.passed s i = x.broughtTo log (log.initial.batches + i) := by
  rw [passed, broughtTo, batches_restore h, Nat.add_sub_cancel_left, funext hs.batch_eq]

/-- A schedule has a divergence at the places where the log diverges. -/
theorem divergence?_ne_none_iff {s : Schedule} (h : log.Replayable x) (hs : s.Lists log.entries)
    {i : Nat} (hi : i < log.total) :
    s.divergence? (log.initial.batches + i) ((x.restore log.initial).2.passed s i) ≠ none ↔
      ∃ hash, x.Diverges log (log.initial.batches + i) hash := by
  rw [passed_restore h hs, Option.ne_none_iff_exists']
  constructor
  · rintro ⟨d, hd⟩
    obtain ⟨hash, hentry, hne, -⟩ := (divergence?_eq_some hs).mp hd
    exact ⟨hash, by omega, by omega, hentry, hne⟩
  · rintro ⟨hash, hdiverges⟩
    exact ⟨_, (divergence?_eq_some hs).mpr
      ⟨hash, hdiverges.checkpoint, hdiverges.differs, rfl⟩⟩

/-- **What a replay comes to**, if it begins. -/
theorem replay_of_replayable (h : log.Replayable x) :
    (∃ i hash, x.Diverges log i hash ∧ (∀ j hash', x.Diverges log j hash' → i ≤ j) ∧
      x.replay log = (.ok ⟨false, i - log.initial.batches,
        some ⟨i, hash, (x.broughtTo log i).stateHash⟩⟩, x.broughtTo log i)) ∨
    ((∀ i hash, ¬ x.Diverges log i hash) ∧
      x.replay log = (.ok ⟨true, log.total, none⟩,
        x.broughtTo log (log.initial.batches + log.total))) := by
  obtain ⟨s, m, hcheck⟩ := BatchLog.exists_check_iff.mpr h
  obtain ⟨-, hentries, -, hm⟩ := BatchLog.check_eq_ok.mp hcheck
  have hs := Schedule.lists_of_ofEntries hentries
  have hrestore : x.restore log.initial = (.ok (), starting x.config m log.initial.batches) := by
    rw [restore, hm]
  have hreplay : ∀ {result z}, (x.restore log.initial).2.replayFrom s log.initial.batches 0
      log.total = (result, z) → x.replay log = (.ok result, z) := by
    intro result z hrun
    rw [hrestore] at hrun
    exact replay_eq_ok.mpr ⟨s, m, hcheck, hrun⟩
  have hbound : (x.restore log.initial).2.batches + log.total < Json.wordBound := by
    rw [batches_restore h]
    exact h.bound
  have hcases := replayFrom_cases s hbound
  rw [batches_restore h] at hcases
  rcases hcases with ⟨i, d, hlt, hnone, hd, hrun⟩ | ⟨hnone, hrun⟩
  · rw [passed_restore h hs] at hd hrun
    obtain ⟨hash, hentry, hne, rfl⟩ := (divergence?_eq_some hs).mp hd
    refine Or.inl ⟨_, hash, ⟨by omega, by omega, hentry, hne⟩, ?_, ?_⟩
    · intro j hash' hj
      by_contra hlt'
      obtain ⟨k, rfl⟩ := Nat.exists_eq_add_of_le hj.le
      exact (divergence?_ne_none_iff h hs (by omega)).mpr ⟨hash', hj⟩ (hnone k (by omega))
    · rw [Nat.add_sub_cancel_left]
      exact hreplay hrun
  · rw [passed_restore h hs] at hrun
    refine Or.inr ⟨?_, hreplay hrun⟩
    intro i hash hi
    have hlt := hi.lt
    obtain ⟨k, rfl⟩ := Nat.exists_eq_add_of_le hi.le
    exact (divergence?_ne_none_iff h hs (by omega)).mpr ⟨hash, hi⟩ (hnone k (by omega))

/-- **A replay finds the first divergence, or fails and changes nothing.**  It fails just if the log
is not replayable, and leaves the executor as it was.  Otherwise let the executor be put back to the
initial snapshot and apply what is recorded place by place, an empty batch where nothing is: the
replay stops at the first place whose checkpoint has not the hash that the executor has when it is
brought there, before the batch at that place is applied, and if there is none it goes through all
places. -/
theorem replay_stops (x : Executor) (log : BatchLog) :
    ((∃ fault, (x.replay log).1 = .error fault) ↔ ¬ log.Replayable x) ∧
    (∀ fault, (x.replay log).1 = .error fault → (x.replay log).2 = x) ∧
    (log.Replayable x →
      (∃ i hash, x.Diverges log i hash ∧ (∀ j hash', x.Diverges log j hash' → i ≤ j) ∧
        x.replay log = (.ok ⟨false, i - log.initial.batches,
          some ⟨i, hash, (x.broughtTo log i).stateHash⟩⟩, x.broughtTo log i)) ∨
      ((∀ i hash, ¬ x.Diverges log i hash) ∧
        x.replay log = (.ok ⟨true, log.total, none⟩,
          x.broughtTo log (log.initial.batches + log.total)))) := by
  have hunchanged : ∀ fault, (x.replay log).1 = .error fault → (x.replay log).2 = x := by
    intro fault hfault
    rw [replay] at hfault ⊢
    cases hcheck : log.check x.config.module with
    | error fault' => rfl
    | ok p =>
      rw [hcheck] at hfault
      cases hfault
  refine ⟨?_, hunchanged, replay_of_replayable⟩
  constructor
  · rintro ⟨fault, hfault⟩ h
    rcases replay_of_replayable h with ⟨i, hash, -, -, hrun⟩ | ⟨-, hrun⟩
    · rw [hrun] at hfault
      cases hfault
    · rw [hrun] at hfault
      cases hfault
  · intro h
    cases hrun : (x.replay log).1 with
    | error fault => exact ⟨fault, rfl⟩
    | ok result =>
      obtain ⟨s, m, hcheck, -⟩ := replay_eq_ok.mp (Prod.ext hrun rfl)
      exact absurd (BatchLog.exists_check_iff.mp ⟨s, m, hcheck⟩) h

/-- A log out of order: nothing is recorded at its first place, and it has a checkpoint that was
forged and one at a place that no replay gets to. -/
def forged : BatchLog where
  initial := (new {}).capture
  module := {}
  total := 3
  entries := [.checkpoint 9 "", .checkpoint 2 "",
    .batch 1 [⟨⟨"alice"⟩, 1, .createAsset ⟨"tea"⟩ "Tea" 5 "kg" none []⟩]]

/-- A replay of the forged log stops at the forged checkpoint, and one of a log that repeats a place
does not begin. -/
theorem replay_stops_of_forged :
    (∃ hash, (new {}).replay forged =
      (.ok ⟨false, 2, some ⟨2, "", hash⟩⟩, (new {}).broughtTo forged 2)) ∧
    ((new {}).replay { forged with entries := [.batch 1 [], .batch 1 []] }).2 = new {} := by
  have hreplayable : forged.Replayable (new {}) := by
    refine ⟨rfl, by decide, by decide, by decide, ?_⟩
    exact restore_eq_ok.mpr (Snapshot.check_eq_ok.mp (check_capture (Reached.new {}))).1
  constructor
  · have hdiverges : (new {}).Diverges forged 2 "" :=
      ⟨by decide, by decide, by decide, by decide +kernel⟩
    rcases (replay_stops (new {}) forged).2.2 hreplayable with
      ⟨i, hash, hi, -, hrun⟩ | ⟨hnone, -⟩
    · have hentry := hi.checkpoint
      have hlt := hi.lt
      simp only [forged, List.mem_cons, LogEntry.checkpoint.injEq, reduceCtorEq, List.not_mem_nil,
        or_false] at hentry
      rcases hentry with ⟨rfl, rfl⟩ | ⟨rfl, rfl⟩
      · exact absurd hlt (by decide)
      · exact ⟨_, hrun⟩
    · exact absurd hdiverges (hnone 2 "")
  · obtain ⟨hfails, hunchanged, -⟩ :=
      replay_stops (new {}) { forged with entries := [.batch 1 [], .batch 1 []] }
    obtain ⟨fault, hfault⟩ := hfails.mpr fun h => absurd h.batches (by decide)
    exact hunchanged fault hfault

end Executor

end Custody
