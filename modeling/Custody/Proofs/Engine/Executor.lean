import Custody.Engine.Snapshot
import Custody.Proofs.Ledger.Run

/-!
# Executors

An executor reads its records, its settings and its counter.  What it keeps about the envelopes
that came before, the journal and the last report, is written and never read, so two executors that
differ in nothing else do the same from then on.

* `Executor.after`, `Executor.verdicts`, `Executor.applyAll_eq`: envelopes one after the other, the
  state they lead to and the verdicts on them.
* `Executor.Reached`, `Reached.pictured`: the records of an executor that began without any are
  those of a run of the ledger.
* `Executor.Alike`, `Alike.verdicts`, `Alike.applyBatches`: **like executors stay alike.**
-/

namespace Custody

/-- A dispatch on a store without layers leaves one without layers. -/
theorem Ledger.ofContents_base_dispatch (config : ModuleConfig) (e : Envelope) (m : Contents) :
    Store.ofContents (dispatch config e (.ofContents m)).2.base =
      (dispatch config e (.ofContents m)).2 := by
  rw [dispatch]
  cases e.check config.limits with
  | error fault => rfl
  | ok u =>
    simp only [atomically_ofContents]
    rcases (execute e).exec m with ⟨_ | _, m'⟩
    · rfl
    · rfl

namespace Executor

/-! ### Envelopes and batches one after the other -/

/-- The executor after envelopes are applied one after the other. -/
def after (x : Executor) (es : List Envelope) : Executor := es.foldl (fun x e => (x.apply e).2) x

/-- The verdicts on envelopes that are applied one after the other. -/
def verdicts (x : Executor) : List Envelope → List (Verdict Outcome)
  | [] => []
  | e :: rest => (x.apply e).1 :: (x.apply e).2.verdicts rest

/-- The executor after batches are applied one after the other. -/
def applyBatches (x : Executor) (batches : List (List Envelope)) : Executor :=
  batches.foldl (fun x batch => (x.applyBatch batch).2) x

variable {x y : Executor}

theorem applyAll_eq (x : Executor) (report : BatchReport) (es : List Envelope) :
    x.applyAll report es = ((x.verdicts es).foldl BatchReport.add report, x.after es) := by
  induction es generalizing x report with
  | nil => rfl
  | cons e rest ih => exact ih (x.apply e).2 (report.add (x.apply e).1)

/-- A batch is its envelopes, and the counter goes on to the next word. -/
theorem state_applyBatch (x : Executor) (batch : List Envelope) :
    (x.applyBatch batch).2 = { x.after batch with
      batches := ((x.after batch).batches + 1) % Json.wordBound
      lastReport := (x.applyBatch batch).1 } := by
  simp only [applyBatch, applyAll_eq]

@[simp] theorem applyBatches_nil (x : Executor) : x.applyBatches [] = x := rfl

@[simp] theorem applyBatches_cons (x : Executor) (batch : List Envelope)
    (rest : List (List Envelope)) :
    x.applyBatches (batch :: rest) = (x.applyBatch batch).2.applyBatches rest := rfl

@[simp] theorem config_after (x : Executor) (es : List Envelope) :
    (x.after es).config = x.config := by
  induction es generalizing x with
  | nil => rfl
  | cons e rest ih => exact ih (x.apply e).2

@[simp] theorem batches_after (x : Executor) (es : List Envelope) :
    (x.after es).batches = x.batches := by
  induction es generalizing x with
  | nil => rfl
  | cons e rest ih => exact ih (x.apply e).2

theorem nextSequence_after (x : Executor) (es : List Envelope) :
    (x.after es).journal.nextSequence = x.journal.nextSequence + es.length := by
  induction es generalizing x with
  | nil => rfl
  | cons e rest ih =>
    have hrest := ih (x.apply e).2
    rwa [show (x.apply e).2.journal.nextSequence = x.journal.nextSequence + 1 from rfl,
      Nat.add_assoc, Nat.add_comm 1] at hrest

@[simp] theorem config_applyBatch (x : Executor) (batch : List Envelope) :
    (x.applyBatch batch).2.config = x.config := by
  rw [state_applyBatch]
  exact config_after x batch

/-- Below the greatest word, the counter goes up by one. -/
theorem batches_applyBatch (batch : List Envelope) (hbound : x.batches + 1 < Json.wordBound) :
    (x.applyBatch batch).2.batches = x.batches + 1 := by
  rw [state_applyBatch, batches_after, Nat.mod_eq_of_lt hbound]

theorem batches_applyBatches {batches : List (List Envelope)}
    (hbound : x.batches + batches.length < Json.wordBound) :
    (x.applyBatches batches).batches = x.batches + batches.length := by
  induction batches generalizing x with
  | nil => rfl
  | cons batch rest ih =>
    rw [List.length_cons] at hbound ⊢
    have hnext := batches_applyBatch (x := x) batch (by omega)
    rw [applyBatches_cons, ih (by omega), hnext, Nat.add_assoc, Nat.add_comm 1]

/-- Every envelope takes a number of the journal. -/
theorem nextSequence_applyBatches (x : Executor) (batches : List (List Envelope)) :
    (x.applyBatches batches).journal.nextSequence =
      x.journal.nextSequence + batches.flatten.length := by
  induction batches generalizing x with
  | nil => rfl
  | cons batch rest ih =>
    have hbatch : (x.applyBatch batch).2.journal.nextSequence =
        x.journal.nextSequence + batch.length := by
      rw [state_applyBatch]
      exact nextSequence_after x batch
    rw [applyBatches_cons, ih, hbatch, List.flatten_cons, List.length_append, Nat.add_assoc]

/-! ### The records -/

theorem store_apply (x : Executor) (e : Envelope) :
    (x.apply e).2.store = (Ledger.dispatch x.config.module e x.store).2 :=
  Ledger.ofContents_base_dispatch x.config.module e x.contents

theorem store_after (x : Executor) (es : List Envelope) :
    (x.after es).store = Ledger.run x.config.module es x.store := by
  induction es generalizing x with
  | nil => rfl
  | cons e rest ih =>
    refine (ih (x.apply e).2).trans ?_
    rw [store_apply]
    rfl

theorem store_applyBatch (x : Executor) (batch : List Envelope) :
    (x.applyBatch batch).2.store = Ledger.run x.config.module batch x.store := by
  rw [state_applyBatch]
  exact store_after x batch

/-- The executors that come about, from one without records, by applying envelopes and batches. -/
inductive Reached : Executor → Prop where
  | new (config : EngineConfig) : Reached (new config)
  | apply {x : Executor} (h : Reached x) (e : Envelope) : Reached (x.apply e).2
  | applyBatch {x : Executor} (h : Reached x) (batch : List Envelope) :
    Reached (x.applyBatch batch).2

/-- The store of such an executor is the store after a run of the ledger. -/
theorem Reached.exists_run (h : Reached x) :
    ∃ es, x.store = Ledger.run x.config.module es .empty := by
  induction h with
  | new config => exact ⟨[], rfl⟩
  | @apply x h e ih =>
    obtain ⟨es, hes⟩ := ih
    refine ⟨es ++ [e], ?_⟩
    rw [store_apply, hes, Ledger.run_append]
    rfl
  | @applyBatch x h batch ih =>
    obtain ⟨es, hes⟩ := ih
    refine ⟨es ++ batch, ?_⟩
    rw [store_applyBatch, hes, config_applyBatch, Ledger.run_append]

/-- **Its records are sound.** -/
theorem Reached.pictured (h : Reached x) : ∃ σ : Records, σ.Pictured x.contents := by
  obtain ⟨es, hes⟩ := h.exists_run
  obtain ⟨σ, m, hrun, hm, -⟩ := Ledger.run_history x.config.module es
  have hcontents : x.contents = m := congrArg Store.base (hes.trans hrun)
  exact ⟨σ, hcontents ▸ hm⟩

/-! ### Like executors -/

/-- Executors that differ at most in what they keep about the envelopes that came before, and in
settings that are not those of the module. -/
structure Alike (x y : Executor) : Prop where
  module : x.config.module = y.config.module
  contents : x.contents = y.contents
  batches : x.batches = y.batches

namespace Alike

theorem stateHash (h : x.Alike y) : x.stateHash = y.stateHash := by
  rw [Executor.stateHash, Executor.stateHash, h.contents, h.batches]

theorem dispatch (h : x.Alike y) (e : Envelope) :
    Ledger.dispatch x.config.module e x.store = Ledger.dispatch y.config.module e y.store := by
  rw [store, store, h.module, h.contents]

theorem verdict (h : x.Alike y) (e : Envelope) : (x.apply e).1 = (y.apply e).1 :=
  congrArg (fun p => p.1) (h.dispatch e)

theorem apply (h : x.Alike y) (e : Envelope) : (x.apply e).2.Alike (y.apply e).2 where
  module := h.module
  contents := congrArg (fun p => p.2.base) (h.dispatch e)
  batches := h.batches

theorem after (h : x.Alike y) (es : List Envelope) : (x.after es).Alike (y.after es) := by
  induction es generalizing x y with
  | nil => exact h
  | cons e rest ih => exact ih (h.apply e)

/-- **Like executors give the same verdicts.** -/
theorem verdicts (h : x.Alike y) (es : List Envelope) : x.verdicts es = y.verdicts es := by
  induction es generalizing x y with
  | nil => rfl
  | cons e rest ih => rw [Executor.verdicts, Executor.verdicts, h.verdict e, ih (h.apply e)]

theorem applyBatch (h : x.Alike y) (batch : List Envelope) :
    (x.applyBatch batch).2.Alike (y.applyBatch batch).2 := by
  rw [state_applyBatch, state_applyBatch]
  have hafter := h.after batch
  exact ⟨hafter.module, hafter.contents,
    congrArg (fun n => (n + 1) % Json.wordBound) hafter.batches⟩

/-- **Like executors stay alike.** -/
theorem applyBatches (h : x.Alike y) (batches : List (List Envelope)) :
    (x.applyBatches batches).Alike (y.applyBatches batches) := by
  induction batches generalizing x y with
  | nil => exact h
  | cons batch rest ih => exact ih (h.applyBatch batch)

/-! Journals that were the same go on to be the same. -/

theorem journal_apply (h : x.Alike y) (hj : x.journal = y.journal) (e : Envelope) :
    (x.apply e).2.journal = (y.apply e).2.journal := by
  have hx : (x.apply e).2.journal =
      x.journal.record e (x.apply e).1 x.config.module.codespace := rfl
  have hy : (y.apply e).2.journal =
      y.journal.record e (y.apply e).1 y.config.module.codespace := rfl
  rw [hx, hy, hj, h.verdict e, h.module]

theorem journal_after (h : x.Alike y) (hj : x.journal = y.journal) (es : List Envelope) :
    (x.after es).journal = (y.after es).journal := by
  induction es generalizing x y with
  | nil => exact hj
  | cons e rest ih => exact ih (h.apply e) (h.journal_apply hj e)

theorem journal_applyBatches (h : x.Alike y) (hj : x.journal = y.journal)
    (batches : List (List Envelope)) :
    (x.applyBatches batches).journal = (y.applyBatches batches).journal := by
  induction batches generalizing x y with
  | nil => exact hj
  | cons batch rest ih =>
    have hjournal : (x.applyBatch batch).2.journal = (y.applyBatch batch).2.journal := by
      rw [state_applyBatch, state_applyBatch]
      exact h.journal_after hj batch
    exact ih (h.applyBatch batch) hjournal

end Alike

end Executor

end Custody
