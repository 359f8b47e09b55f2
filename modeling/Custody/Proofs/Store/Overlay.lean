import Custody.Ledger.Dispatch
import Custody.Proofs.SortedMap.View
import Custody.Proofs.Store.Range

/-!
# Layers are transparent

A store with layers is read as the one map that its layers amount to (`Store.contents`), and a
write changes that map as it would change a plain one.  So what a transaction does can be said on
plain maps alone (`Txn.exec`), whatever layers it is run on:

* `Txn.run_under`: a run on a layer, committed, is a run on the store below.
* `Ledger.atomically_eq`: on a layer that is committed or abandoned, a transaction that is done
  leaves what it leaves without the layer, and one that is refused leaves nothing.
* `Ledger.dispatch_atomic`: **dispatch is atomic, and its layer is transparent.**
-/

namespace Custody

namespace Contents

theorem get?_put (m : Contents) (key key' : Bytes) (value : Option Bytes) :
    (m.put key value).get? key' = if key' = key then value else m.get? key' := by
  cases value with
  | none => exact m.get?_erase_eq key key'
  | some v => exact m.get?_insert_eq key key' v

theorem get?_foldl_put {writes : List (Bytes × Option Bytes)}
    (h : writes.Pairwise fun a b => compare a.1 b.1 = .lt) (m : Contents) (key : Bytes) :
    (writes.foldl (fun m w => put m w.1 w.2) m).get? key =
      (SortedMap.lookup writes key).getD (m.get? key) := by
  induction writes generalizing m with
  | nil => rfl
  | cons w rest ih =>
    rw [List.foldl_cons, ih (List.pairwise_cons.mp h).2, get?_put, SortedMap.lookup_cons]
    by_cases hk : key = w.1
    · subst hk
      simp [SortedMap.lookup_tail h]
    · simp [hk]

/-- A layer over a map is seen first. -/
theorem get?_apply (m : Contents) (layer : Layer) (key : Bytes) :
    (m.apply layer).get? key = (layer.get? key).getD (m.get? key) :=
  get?_foldl_put layer.ascending m key

/-- A write to the layer is a write to the map that it amounts to. -/
theorem apply_insert (m : Contents) (layer : Layer) (key : Bytes) (value : Option Bytes) :
    m.apply (layer.insert key value) = (m.apply layer).put key value := by
  refine SortedMap.ext_get? ?_
  intro k
  rw [get?_apply, SortedMap.get?_insert_eq, get?_put, get?_apply]
  by_cases hk : k = key <;> simp [hk]

theorem range_apply (m : Contents) (layer : Layer) (stem : Bytes) :
    (m.range stem).apply (layer.stretch stem fun key => stem.isPrefixOf key) =
      (m.apply layer).range stem := by
  refine SortedMap.ext_get? ?_
  intro k
  rw [get?_apply, get?_range, get?_range, SortedMap.get?_stretch_isPrefixOf, get?_apply]
  by_cases hk : stem.isPrefixOf k <;> simp [hk]

end Contents

/-- A layer after writes, in any order of their keys, and one more write. -/
theorem Layer.foldl_insert_insert (top layer : Layer) (key : Bytes) (value : Option Bytes) :
    (layer.insert key value).bindings.foldl (fun l w => l.insert w.1 w.2) top =
      (layer.bindings.foldl (fun l w => l.insert w.1 w.2) top).insert key value := by
  refine SortedMap.ext_get? ?_
  intro k
  rw [SortedMap.get?_insert_eq, SortedMap.get?_foldl_bindings, SortedMap.get?_foldl_bindings,
    SortedMap.get?_insert_eq]
  by_cases hk : k = key <;> simp [hk]

/-! ### What a store amounts to -/

namespace Store

/-- The map that layers over a map amount to. -/
def flatten (base : Contents) : List Layer → Contents
  | [] => base
  | layer :: below => (flatten base below).apply layer

/-- The map that a store amounts to. -/
def contents (s : Store) : Contents := flatten s.base s.layers

@[simp] theorem contents_ofContents (m : Contents) : (ofContents m).contents = m := rfl

theorem lookup_eq (base : Contents) (key : Bytes) (layers : List Layer) :
    lookup base key layers = (flatten base layers).get? key := by
  induction layers with
  | nil => rfl
  | cons layer below ih =>
    rw [lookup, flatten, Contents.get?_apply, ih]
    cases layer.get? key <;> rfl

theorem lookupRange_eq (base : Contents) (stem : Bytes) (layers : List Layer) :
    lookupRange base stem layers = (flatten base layers).range stem := by
  induction layers with
  | nil => rfl
  | cons layer below ih => rw [lookupRange, flatten, ih, Contents.range_apply]

theorem get?_eq (s : Store) (key : Bytes) : s.get? key = s.contents.get? key :=
  lookup_eq s.base key s.layers

/-- **A reader sees of a store the map that it amounts to.** -/
theorem view_eq (s : Store) : s.view = s.contents.view := by
  have hget : s.get? = s.contents.get? := funext s.get?_eq
  have hscan : s.scan = fun stem => (s.contents.range stem).bindings :=
    funext fun stem => congrArg SortedMap.bindings (lookupRange_eq s.base stem s.layers)
  rw [view, hget, hscan]
  rfl

theorem contents_put (s : Store) (key : Bytes) (value : Option Bytes) :
    (s.put key value).contents = s.contents.put key value := by
  obtain ⟨base, layers⟩ := s
  cases layers with
  | nil => rfl
  | cons layer below => exact Contents.apply_insert _ layer key value

theorem get?_put (s : Store) (key key' : Bytes) (value : Option Bytes) :
    (s.put key value).get? key' = if key' = key then value else s.get? key' := by
  rw [get?_eq, get?_eq, contents_put, Contents.get?_put]

/-! ### A layer over a store -/

/-- The store under one more layer. -/
def under (s : Store) (layer : Layer) : Store := { s with layers := layer :: s.layers }

theorem under_empty (s : Store) : s.under ∅ = s.branch := rfl

theorem put_under (s : Store) (layer : Layer) (key : Bytes) (value : Option Bytes) :
    (s.under layer).put key value = s.under (layer.insert key value) := rfl

theorem commit_under (s : Store) (layer : Layer) :
    (s.under layer).commit = layer.bindings.foldl (fun s w => s.put w.1 w.2) s := rfl

theorem abandon_under (s : Store) (layer : Layer) : (s.under layer).abandon = s := rfl

theorem foldl_put_ofContents (writes : List (Bytes × Option Bytes)) (m : Contents) :
    writes.foldl (fun s w => s.put w.1 w.2) (ofContents m) =
      ofContents (writes.foldl (fun m w => m.put w.1 w.2) m) := by
  induction writes generalizing m with
  | nil => rfl
  | cons w rest ih => exact ih (m.put w.1 w.2)

theorem foldl_put_cons (writes : List (Bytes × Option Bytes)) (base : Contents) (top : Layer)
    (below : List Layer) :
    writes.foldl (fun s w => s.put w.1 w.2) (Store.mk base (top :: below)) =
      Store.mk base (writes.foldl (fun l w => l.insert w.1 w.2) top :: below) := by
  induction writes generalizing top with
  | nil => rfl
  | cons w rest ih => exact ih (top.insert w.1 w.2)

theorem contents_foldl_put (writes : List (Bytes × Option Bytes)) (s : Store) :
    (writes.foldl (fun s w => s.put w.1 w.2) s).contents =
      writes.foldl (fun m w => m.put w.1 w.2) s.contents := by
  induction writes generalizing s with
  | nil => rfl
  | cons w rest ih => rw [List.foldl_cons, ih, contents_put, List.foldl_cons]

/-- A reader sees of a layer what it sees once the layer is committed. -/
theorem view_under (s : Store) (layer : Layer) :
    (s.under layer).view = (s.under layer).commit.view := by
  rw [view_eq, view_eq, commit_under, contents_foldl_put]
  rfl

/-- **A write to a layer that is committed then is a write to the store after the commit.**  The
order of the writes does not matter, as each key keeps its last one. -/
theorem commit_put_under (s : Store) (layer : Layer) (key : Bytes) (value : Option Bytes) :
    ((s.under layer).put key value).commit = (s.under layer).commit.put key value := by
  rw [put_under, commit_under, commit_under]
  obtain ⟨base, layers⟩ := s
  cases layers with
  | nil =>
    have hput : base.apply (layer.insert key value) = (base.apply layer).put key value :=
      Contents.apply_insert base layer key value
    exact (foldl_put_ofContents _ base).trans
      ((congrArg ofContents hput).trans (congrArg (Store.put · key value)
        (foldl_put_ofContents layer.bindings base).symm))
  | cons top below =>
    rw [foldl_put_cons, foldl_put_cons, Layer.foldl_insert_insert]
    rfl

end Store

/-! ### Transactions on layers -/

namespace Txn

variable {α β : Type}

/-- A transaction run on a plain map. -/
def exec : Txn α → Contents → Verdict α × Contents
  | done result, m => (result, m)
  | observe next, m => (next m.view).exec m
  | write key value next, m => next.exec (m.put key value)

/-- A run on a store without layers. -/
theorem run_ofContents (t : Txn α) (m : Contents) :
    t.run (.ofContents m) = ((t.exec m).1, .ofContents (t.exec m).2) := by
  induction t generalizing m with
  | done result => rfl
  | observe next ih => exact ih m.view m
  | write key value next ih => exact ih (m.put key value)

/-- A run does to the map that a store amounts to what it does to a plain map. -/
theorem run_contents (t : Txn α) (s : Store) :
    (t.run s).1 = (t.exec s.contents).1 ∧ (t.run s).2.contents = (t.exec s.contents).2 := by
  induction t generalizing s with
  | done result => exact ⟨rfl, rfl⟩
  | observe next ih =>
    rw [run, exec, Store.view_eq]
    exact ih s.contents.view s
  | write key value next ih =>
    rw [run, exec, ← Store.contents_put]
    exact ih (s.put key value)

/-- **A run on a layer, committed, is a run on the store.**  The run writes to the layer alone, and
whatever it observes there it observes on the store that the layer amounts to. -/
theorem run_under (t : Txn α) (s : Store) (layer : Layer) : ∃ layer',
    t.run (s.under layer) = ((t.run (s.under layer).commit).1, s.under layer') ∧
      (s.under layer').commit = (t.run (s.under layer).commit).2 := by
  -- The layer grows with each write, and what it amounts to is where the direct run has come to.
  induction t generalizing layer with
  | done result => exact ⟨layer, rfl, rfl⟩
  | observe next ih =>
    rw [run, run, Store.view_under]
    exact ih _ layer
  | write key value next ih =>
    rw [run, run, ← Store.commit_put_under, Store.put_under]
    exact ih (layer.insert key value)

end Txn

namespace Ledger

variable {α : Type}

/-- **A layer makes a transaction atomic and changes nothing else.** -/
theorem atomically_eq (t : Txn α) (s : Store) :
    atomically t s =
      match t.run s with
      | (.ok a, s') => (.ok a, s')
      | (.error e, _) => (.error e, s) := by
  obtain ⟨layer, hrun, hcommit⟩ := t.run_under s ∅
  have hempty : (s.under ∅).commit = s := rfl
  rw [hempty] at hrun hcommit
  rw [atomically, ← Store.under_empty, hrun]
  cases h : t.run s with
  | mk verdict s' =>
    rw [h] at hcommit
    cases verdict with
    | ok a => exact congrArg (Prod.mk _) hcommit
    | error e => exact congrArg (Prod.mk _) (Store.abandon_under s layer)

theorem atomically_ofContents (t : Txn α) (m : Contents) :
    atomically t (.ofContents m) =
      match t.exec m with
      | (.ok a, m') => (.ok a, .ofContents m')
      | (.error e, _) => (.error e, .ofContents m) := by
  rw [atomically_eq, Txn.run_ofContents]
  rcases t.exec m with ⟨_ | _, m'⟩
  · rfl
  · rfl

/-- **Dispatch is atomic.**  Whatever a store holds, a refused envelope leaves it as it is, and an
envelope is applied just if it passes its checks and its message, executed on the store without a
layer, is done; both give the same outcome and leave the same store. -/
theorem dispatch_atomic (config : ModuleConfig) (e : Envelope) (s : Store) :
    (∀ fault s', dispatch config e s = (.error fault, s') → s' = s) ∧
    ∀ outcome s', dispatch config e s = (.ok outcome, s') ↔
      e.check config.limits = .ok () ∧ (execute e).run s = (.ok outcome, s') := by
  rw [dispatch]
  cases hcheck : e.check config.limits with
  | error fault => exact ⟨fun _ _ h => (Prod.mk.inj h).2.symm, by simp⟩
  | ok u =>
    simp only [atomically_eq, true_and]
    cases (execute e).run s with
    | mk verdict s' =>
      cases verdict with
      | error fault => exact ⟨fun _ _ h => (Prod.mk.inj h).2.symm, fun _ _ => by simp⟩
      | ok outcome => exact ⟨fun _ _ h => (nomatch h), fun _ _ => Iff.rfl⟩

/-- A store with bytes that denote no record.  An envelope that comes upon them is refused, another
one is applied. -/
theorem dispatch_beside_damage :
    (dispatch {} ⟨⟨"alice"⟩, 1, .finalize ⟨"grain"⟩⟩
      (.ofEntries [(Key.asset ⟨"grain"⟩, [0])])).2 = .ofEntries [(Key.asset ⟨"grain"⟩, [0])] ∧
    (execute ⟨⟨"alice"⟩, 1, .createAsset ⟨"silo"⟩ "Silo" 5 "kg" none []⟩).run
        (.ofEntries [(Key.asset ⟨"grain"⟩, [0])]) =
      (.ok (.plain .createAsset ⟨"silo"⟩ ⟨"alice"⟩),
        (dispatch {} ⟨⟨"alice"⟩, 1, .createAsset ⟨"silo"⟩ "Silo" 5 "kg" none []⟩
          (.ofEntries [(Key.asset ⟨"grain"⟩, [0])])).2) := by
  have hrefused : (dispatch {} ⟨⟨"alice"⟩, 1, .finalize ⟨"grain"⟩⟩
      (.ofEntries [(Key.asset ⟨"grain"⟩, [0])])).1 =
      .error (.damagedRecord "provena/asset/grain" .unreadable) := rfl
  have hdone : (dispatch {} ⟨⟨"alice"⟩, 1, .createAsset ⟨"silo"⟩ "Silo" 5 "kg" none []⟩
      (.ofEntries [(Key.asset ⟨"grain"⟩, [0])])).1 =
      .ok (.plain .createAsset ⟨"silo"⟩ ⟨"alice"⟩) := rfl
  constructor
  · exact (dispatch_atomic _ _ _).1 _ _ (Prod.ext hrefused rfl)
  · exact (((dispatch_atomic _ _ _).2 _ _).mp (Prod.ext hdone rfl)).2

end Ledger

end Custody
