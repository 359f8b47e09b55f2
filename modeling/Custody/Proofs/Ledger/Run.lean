import Mathlib.Data.List.Induction
import Custody.Proofs.Records.Applying
import Custody.Proofs.Records.Following

/-!
# Runs of the ledger

Envelopes are dispatched one after the other, from the empty store.  Some are refused and leave no
trace; the others, the **accepted** ones, make a history of steps.  At every moment the store is a
picture of the records that this history leads to.

* `Ledger.run`, `Ledger.trace`, `Ledger.accepted`: the store after a run, and the envelopes that
  were applied, with and without the stores they left.
* `Records.History`: the records that a trace leads to.
* `Ledger.dispatch_pictured`: a dispatch does to the store what it does to the records.
* `Ledger.dispatch_verdict`, `Ledger.dispatch_of_step`: it is accepted just if its envelope passes
  the check and its message can make a step.
* `Ledger.run_history`: **the store after a run pictures the records of its history.**
* `Ledger.Stable`, `Ledger.run_stable`: what each step keeps, a run keeps; with
  `Ledger.StableUnder`, what each step within given limits keeps.
* `Ledger.Reachable`, `Reachable.pictured`: the stores that runs lead to, under whatever settings.
-/

namespace Custody

namespace Ledger

/-- The store after envelopes are dispatched one after the other. -/
def run (config : ModuleConfig) (es : List Envelope) (s : Store) : Store :=
  es.foldl (fun s e => (dispatch config e s).2) s

/-- The envelopes that a run applies, in order, each with the store it leaves. -/
def trace (config : ModuleConfig) : List Envelope → Store → List (Envelope × Store)
  | [], _ => []
  | e :: es, s =>
    match dispatch config e s with
    | (.ok _, s') => (e, s') :: trace config es s'
    | (.error _, s') => trace config es s'

/-- The envelopes that a run applies, in order. -/
def accepted (config : ModuleConfig) (es : List Envelope) (s : Store) : List Envelope :=
  (trace config es s).map Prod.fst

theorem run_append (config : ModuleConfig) (es es' : List Envelope) (s : Store) :
    run config (es ++ es') s = run config es' (run config es s) := List.foldl_append

theorem trace_append (config : ModuleConfig) (es es' : List Envelope) (s : Store) :
    trace config (es ++ es') s = trace config es s ++ trace config es' (run config es s) := by
  induction es generalizing s with
  | nil => rfl
  | cons e rest ih =>
    have hrun : run config (e :: rest) s = run config rest (dispatch config e s).2 := rfl
    rw [List.cons_append, trace, trace, hrun]
    rcases dispatch config e s with ⟨_ | _, s'⟩
    · exact ih s'
    · exact congrArg ((e, s') :: ·) (ih s')

end Ledger

namespace Records

/-- The records that a trace of applied envelopes leads to; each store of the trace pictures the
records at its time. -/
inductive History : List (Envelope × Store) → Records → Prop where
  | nil : History [] empty
  | snoc {tr : List (Envelope × Store)} {e : Envelope} {σ σ' : Records} {m : Contents}
      (h : History tr σ) (he : e.Clean) (hstep : σ.Step e.sender e.blockTime e.message σ')
      (hm : σ'.Pictured m) : History (tr ++ [(e, .ofContents m)]) σ'

theorem sound_empty : empty.Sound :=
  ⟨⟨nofun, nofun, nofun, nofun⟩, nofun⟩

theorem pictured_empty : empty.Pictured ∅ := by
  refine ⟨sound_empty, Contents.Shows.empty.congr ?_⟩
  intro x
  cases x <;> rfl

theorem History.sound {tr : List (Envelope × Store)} {σ : Records} (h : History tr σ) :
    σ.Sound := by
  cases h with
  | nil => exact sound_empty
  | snoc h he hstep hm => exact hm.sound

end Records

namespace Ledger

open Records

variable {σ : Records} {m : Contents}

/-- **A dispatch does to the store what it does to the records.** -/
theorem dispatch_pictured (config : ModuleConfig) (e : Envelope) (h : σ.Pictured m) : ∃ m',
    dispatch config e (.ofContents m) = ((σ.dispatch config e).1, .ofContents m') ∧
      (σ.dispatch config e).2.Pictured m' := by
  rw [dispatch, Records.dispatch]
  cases hcheck : e.check config.limits with
  | error fault => exact ⟨m, rfl, h⟩
  | ok u =>
    have hfollows := execute_follows e m h
    cases hexecute : σ.execute e with
    | error fault =>
      rw [hexecute] at hfollows
      refine ⟨m, ?_, h⟩
      simp only [atomically_ofContents, hfollows]
    | ok p =>
      rw [hexecute] at hfollows
      have hstep := step_of_execute h.sound.wellFormed hexecute
      obtain ⟨m', hexec, hm'⟩ := hfollows (hstep.sound h.sound (Envelope.clean_of_check hcheck))
      refine ⟨m', ?_, hm'⟩
      simp only [atomically_ofContents, hexec]

/-- A checked envelope whose message the records apply is accepted. -/
theorem dispatch_of_execute {config : ModuleConfig} {e : Envelope} {outcome : Outcome}
    {σ' : Records} (h : σ.Pictured m) (hcheck : e.check config.limits = .ok ())
    (hexecute : σ.execute e = .ok (outcome, σ')) : ∃ m',
    dispatch config e (.ofContents m) = (.ok outcome, .ofContents m') ∧ σ'.Pictured m' := by
  obtain ⟨m', hdispatch, hm'⟩ := dispatch_pictured config e h
  simp only [Records.dispatch, hcheck, hexecute] at hdispatch hm'
  exact ⟨m', hdispatch, hm'⟩

/-- A checked envelope whose message the records refuse is refused for the same reason. -/
theorem dispatch_of_execute_error {config : ModuleConfig} {e : Envelope} {fault : Fault}
    (h : σ.Pictured m) (hcheck : e.check config.limits = .ok ())
    (hexecute : σ.execute e = .error fault) :
    dispatch config e (.ofContents m) = (.error fault, .ofContents m) := by
  obtain ⟨m', hdispatch, hm'⟩ := dispatch_pictured config e h
  simp only [Records.dispatch, hcheck, hexecute] at hdispatch hm'
  rw [hdispatch, hm'.shows.ext h.shows]

/-- A checked envelope whose message can make a step is accepted, and makes that step. -/
theorem dispatch_of_step {config : ModuleConfig} {e : Envelope} {σ' : Records} (h : σ.Pictured m)
    (hcheck : e.check config.limits = .ok ())
    (hstep : σ.Step e.sender e.blockTime e.message σ') : ∃ outcome m',
    dispatch config e (.ofContents m) = (.ok outcome, .ofContents m') ∧ σ'.Pictured m' := by
  obtain ⟨-, hbody⟩ := Envelope.check_eq_ok.mp hcheck
  obtain ⟨outcome, hexecute⟩ :=
    execute_of_step h.sound.wellFormed hstep (Message.values_of_checkBody hbody)
  obtain ⟨m', hdispatch, hm'⟩ := dispatch_of_execute h hcheck hexecute
  exact ⟨outcome, m', hdispatch, hm'⟩

/-- A dispatch is accepted, by a check and the records, or it is refused and changes nothing. -/
theorem dispatch_verdict (config : ModuleConfig) (e : Envelope) (h : σ.Pictured m) :
    (∃ outcome σ' m', e.check config.limits = .ok () ∧ σ.execute e = .ok (outcome, σ') ∧
      dispatch config e (.ofContents m) = (.ok outcome, .ofContents m') ∧ σ'.Pictured m') ∨
    ∃ fault, dispatch config e (.ofContents m) = (.error fault, .ofContents m) := by
  cases hcheck : e.check config.limits with
  | error fault => exact Or.inr ⟨fault, by rw [dispatch, hcheck]⟩
  | ok u =>
    cases hexecute : σ.execute e with
    | error fault => exact Or.inr ⟨fault, dispatch_of_execute_error h hcheck hexecute⟩
    | ok p =>
      obtain ⟨m', hdispatch, hm'⟩ := dispatch_of_execute h hcheck hexecute
      exact Or.inl ⟨p.1, p.2, m', rfl, rfl, hdispatch, hm'⟩

/-- A dispatch that is accepted makes a step, and one that is refused changes nothing. -/
theorem dispatch_cases (config : ModuleConfig) (e : Envelope) (h : σ.Pictured m) :
    (∃ outcome m' σ', dispatch config e (.ofContents m) = (.ok outcome, .ofContents m') ∧
      σ'.Pictured m' ∧ e.Clean ∧ σ.Step e.sender e.blockTime e.message σ') ∨
    ∃ fault, dispatch config e (.ofContents m) = (.error fault, .ofContents m) := by
  rcases dispatch_verdict config e h with
    ⟨outcome, σ', m', hcheck, hexecute, hdispatch, hm'⟩ | hrefused
  · exact Or.inl ⟨outcome, m', σ', hdispatch, hm', Envelope.clean_of_check hcheck,
      step_of_execute h.sound.wellFormed hexecute⟩
  · exact Or.inr hrefused

/-- **The store after a run pictures the records of its history.** -/
theorem run_history (config : ModuleConfig) (es : List Envelope) : ∃ σ m,
    run config es .empty = .ofContents m ∧ σ.Pictured m ∧
      History (trace config es .empty) σ := by
  induction es using List.reverseRecOn with
  | nil => exact ⟨empty, ∅, rfl, pictured_empty, .nil⟩
  | append_singleton es e ih =>
    obtain ⟨σ, m, hrun, hm, hhistory⟩ := ih
    rw [run_append, trace_append, hrun]
    rcases dispatch_cases config e hm with
      ⟨outcome, m', σ', hdispatch, hm', he, hstep⟩ | ⟨fault, hdispatch⟩
    · refine ⟨σ', m', ?_, hm', ?_⟩
      · simp [run, hdispatch]
      · simpa [trace, hdispatch] using hhistory.snoc he hstep hm'
    · refine ⟨σ, m, ?_, hm, ?_⟩
      · simp [run, hdispatch]
      · simpa [trace, hdispatch] using hhistory

/-! ### What steps keep -/

/-- A property of records that the steps of envelopes keep which are checked against given
limits. -/
def StableUnder (limits : Limits) (P : Records → Prop) : Prop :=
  ∀ {σ σ' : Records} {e : Envelope}, σ.WellFormed → P σ →
    e.check limits = .ok () → σ.Step e.sender e.blockTime e.message σ' → P σ'

/-- A property of records that the steps of checked envelopes keep. -/
def Stable (P : Records → Prop) : Prop :=
  ∀ {σ σ' : Records} {limits : Limits} {e : Envelope}, σ.WellFormed → P σ →
    e.check limits = .ok () → σ.Step e.sender e.blockTime e.message σ' → P σ'

theorem Stable.under {P : Records → Prop} (hP : Stable P) (limits : Limits) :
    StableUnder limits P := hP

theorem dispatch_stableUnder {P : Records → Prop} {config : ModuleConfig}
    (hP : StableUnder config.limits P) (e : Envelope) (hm : σ.Pictured m) (hσ : P σ) : ∃ σ' m',
    (dispatch config e (.ofContents m)).2 = .ofContents m' ∧ σ'.Pictured m' ∧ P σ' := by
  rcases dispatch_verdict config e hm with
    ⟨outcome, σ', m', hcheck, hexecute, hdispatch, hm'⟩ | ⟨fault, hdispatch⟩
  · have hstep := step_of_execute hm.sound.wellFormed hexecute
    exact ⟨σ', m', by rw [hdispatch], hm', hP hm.sound.wellFormed hσ hcheck hstep⟩
  · exact ⟨σ, m, by rw [hdispatch], hm, hσ⟩

theorem run_stableUnder {P : Records → Prop} {config : ModuleConfig}
    (hP : StableUnder config.limits P) (es : List Envelope) (hm : σ.Pictured m) (hσ : P σ) :
    ∃ σ' m', run config es (.ofContents m) = .ofContents m' ∧ σ'.Pictured m' ∧ P σ' := by
  induction es generalizing σ m with
  | nil => exact ⟨σ, m, rfl, hm, hσ⟩
  | cons e rest ih =>
    obtain ⟨σ', m', hdispatch, hm', hσ'⟩ := dispatch_stableUnder hP e hm hσ
    have hrun : run config (e :: rest) (.ofContents m) =
        run config rest (dispatch config e (.ofContents m)).2 := rfl
    rw [hrun, hdispatch]
    exact ih hm' hσ'

theorem dispatch_stable {P : Records → Prop} (hP : Stable P) (config : ModuleConfig) (e : Envelope)
    (hm : σ.Pictured m) (hσ : P σ) : ∃ σ' m',
    (dispatch config e (.ofContents m)).2 = .ofContents m' ∧ σ'.Pictured m' ∧ P σ' :=
  dispatch_stableUnder (hP.under config.limits) e hm hσ

theorem run_stable {P : Records → Prop} (hP : Stable P) (config : ModuleConfig)
    (es : List Envelope) (hm : σ.Pictured m) (hσ : P σ) : ∃ σ' m',
    run config es (.ofContents m) = .ofContents m' ∧ σ'.Pictured m' ∧ P σ' :=
  run_stableUnder (hP.under config.limits) es hm hσ

/-! ### Reachable stores -/

/-- The stores that dispatches lead to from the empty one, each dispatch under its own settings. -/
inductive Reachable : Store → Prop where
  | empty : Reachable .empty
  | dispatch {s : Store} (h : Reachable s) (config : ModuleConfig) (e : Envelope) :
    Reachable (dispatch config e s).2

theorem Reachable.run {s : Store} (h : Reachable s) (config : ModuleConfig) (es : List Envelope) :
    Reachable (run config es s) := by
  induction es generalizing s with
  | nil => exact h
  | cons e rest ih => exact ih (h.dispatch config e)

/-- A reachable store pictures records with every property that the empty ones have and that steps
keep. -/
theorem Reachable.stable {P : Records → Prop} (hP : Stable P) (hempty : P .empty) {s : Store}
    (h : Reachable s) : ∃ σ m, s = .ofContents m ∧ Records.Pictured σ m ∧ P σ := by
  induction h with
  | empty => exact ⟨.empty, ∅, rfl, pictured_empty, hempty⟩
  | dispatch h config e ih =>
    obtain ⟨σ, m, rfl, hm, hσ⟩ := ih
    exact dispatch_stable hP config e hm hσ

/-- **A reachable store pictures records.** -/
theorem Reachable.pictured {s : Store} (h : Reachable s) : ∃ σ m,
    s = .ofContents m ∧ Records.Pictured σ m := by
  obtain ⟨σ, m, hs, hm, -⟩ := h.stable (P := fun _ => True) (fun _ _ _ _ => trivial) trivial
  exact ⟨σ, m, hs, hm⟩

end Ledger

end Custody
