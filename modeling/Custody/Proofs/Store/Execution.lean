import Custody.Proofs.Store.Overlay

/-!
# Executing transactions step by step

How the plain execution of a transaction goes through its parts.  A transaction that goes on with
the answer of a query or a verdict is left as it is if that answer is a refusal.
-/

namespace Custody

/-! ### Verdicts -/

namespace Verdict

variable {α β : Type}

theorem bind_eq_ok {x : Verdict α} {f : α → Verdict β} {b : β} :
    x >>= f = .ok b ↔ ∃ a, x = .ok a ∧ f a = .ok b := by
  cases x with
  | error e => exact ⟨nofun, fun ⟨_, h, _⟩ => nomatch h⟩
  | ok a => exact ⟨fun h => ⟨a, rfl, h⟩, fun ⟨_, h, hf⟩ => Except.ok.inj h ▸ hf⟩

theorem ok_bind (a : α) (f : α → Verdict β) : (Except.ok a : Verdict α) >>= f = f a := rfl

theorem pure_eq_ok {a b : α} : (pure a : Verdict α) = .ok b ↔ a = b :=
  ⟨Except.ok.inj, congrArg Except.ok⟩

end Verdict

namespace Txn

variable {α β γ : Type}

theorem bind_done (t : Txn α) : t.bind (fun a => done (.ok a)) = t := by
  induction t with
  | done result => cases result <;> rfl
  | observe next ih => exact congrArg observe (funext ih)
  | write key value next ih => exact congrArg (write key value) ih

theorem bind_bind (t : Txn α) (f : α → Txn β) (g : β → Txn γ) :
    (t.bind f).bind g = t.bind fun a => (f a).bind g := by
  induction t with
  | done result => cases result <;> rfl
  | observe next ih => exact congrArg observe (funext ih)
  | write key value next ih => exact congrArg (write key value) ih

instance : LawfulMonad Txn := LawfulMonad.mk' Txn bind_done (fun _ _ => rfl) bind_bind

@[simp] theorem exec_pure (a : α) (m : Contents) : (pure a : Txn α).exec m = (.ok a, m) := rfl

theorem exec_bind (t : Txn α) (f : α → Txn β) (m : Contents) :
    (t >>= f).exec m =
      match t.exec m with
      | (.ok a, m') => (f a).exec m'
      | (.error e, m') => (.error e, m') := by
  change (t.bind f).exec m = _
  induction t generalizing m with
  | done result => cases result <;> rfl
  | observe next ih => exact ih m.view m
  | write key value next ih => exact ih (m.put key value)

theorem exec_bind_of_ok {t : Txn α} {m m' : Contents} {a : α} (h : t.exec m = (.ok a, m'))
    (f : α → Txn β) : (t >>= f).exec m = (f a).exec m' := by
  rw [exec_bind, h]

theorem exec_bind_of_error {t : Txn α} {m m' : Contents} {e : Fault}
    (h : t.exec m = (.error e, m')) (f : α → Txn β) : (t >>= f).exec m = (.error e, m') := by
  rw [exec_bind, h]

@[simp] theorem exec_query (q : Query α) (m : Contents) :
    (liftM q : Txn α).exec m = (q m.view, m) := rfl

@[simp] theorem exec_verdict (r : Verdict α) (m : Contents) :
    (liftM r : Txn α).exec m = (r, m) := rfl

/-- Transactions that are never refused, one for each element of a list. -/
theorem exec_forM {l : List α} {f : α → Txn Unit} {g : Contents → α → Contents}
    (h : ∀ a m, (f a).exec m = (.ok (), g m a)) (m : Contents) :
    (l.forM f).exec m = (.ok (), l.foldl g m) := by
  induction l generalizing m with
  | nil => rfl
  | cons a rest ih =>
    change (f a >>= fun _ => rest.forM f).exec m = _
    rw [exec_bind_of_ok (h a m), ih, List.foldl_cons]

/-- Transactions that are never refused and answer, one for each element of a list. -/
theorem exec_mapM {l : List α} {f : α → Txn β} {answer : α → β} {g : Contents → α → Contents}
    (h : ∀ a m, (f a).exec m = (.ok (answer a), g m a)) (m : Contents) :
    (l.mapM f).exec m = (.ok (l.map answer), l.foldl g m) := by
  induction l generalizing m with
  | nil => rfl
  | cons a rest ih =>
    rw [List.mapM_cons, exec_bind_of_ok (h a m), exec_bind_of_ok (ih (g m a)), List.foldl_cons]
    rfl

/-- Transactions that do nothing, one for each element of a list. -/
theorem exec_forM_of_same {l : List α} {f : α → Txn Unit} {m : Contents}
    (h : ∀ a ∈ l, (f a).exec m = (.ok (), m)) : (l.forM f).exec m = (.ok (), m) := by
  induction l with
  | nil => rfl
  | cons a rest ih =>
    change (f a >>= fun _ => rest.forM f).exec m = _
    rw [exec_bind_of_ok (h a List.mem_cons_self)]
    exact ih fun b hb => h b (List.mem_cons_of_mem _ hb)

/-- Checks, one for each element of a list. -/
theorem exec_forM_verdict (l : List α) (r : α → Verdict Unit) (m : Contents) :
    (l.forM fun a => (liftM (r a) : Txn Unit)).exec m = (l.forM r, m) := by
  induction l with
  | nil => rfl
  | cons a rest ih =>
    change (liftM (r a) >>= fun _ => rest.forM fun a => (liftM (r a) : Txn Unit)).exec m =
      (r a >>= fun _ => rest.forM r, m)
    rw [exec_bind, exec_verdict]
    cases r a with
    | error e => rfl
    | ok _ => exact ih

/-! ### Runs on layers -/

theorem run_query_of_ok {q : Query γ} {s : Store} {c : γ} (h : q.run s = .ok c) (f : γ → Txn α) :
    (liftM q >>= f).run s = (f c).run s := by
  change ((done (q.run s)).bind f).run s = _
  rw [h]
  rfl

theorem run_query_of_error {q : Query γ} {s : Store} {e : Fault} (h : q.run s = .error e)
    (f : γ → Txn α) : (liftM q >>= f).run s = (.error e, s) := by
  change ((done (q.run s)).bind f).run s = _
  rw [h]
  rfl

end Txn

namespace Query

variable {α β : Type}

/-- A query reads the map that a store amounts to. -/
theorem run_contents (q : Query α) (s : Store) : q.run s = q s.contents.view := by
  rw [run, Store.view_eq]
  rfl

@[simp] theorem bind_view (q : Query α) (f : α → Query β) (v : View) :
    (q >>= f) v = (q v >>= fun a => f a v) := rfl

theorem mapM_view (l : List α) (f : α → Query β) (v : View) :
    l.mapM f v = l.mapM fun a => f a v := by
  induction l with
  | nil => rfl
  | cons a rest ih =>
    rw [List.mapM_cons, List.mapM_cons, bind_view]
    refine congrArg _ (funext ?_)
    intro b
    rw [bind_view, ih]
    rfl

@[simp] theorem verdict_view (r : Verdict α) (v : View) : (liftM r : Query α) v = r := rfl

end Query

end Custody
