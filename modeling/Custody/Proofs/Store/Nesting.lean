import Mathlib.Data.Finset.Card
import Custody.Proofs.Ascending
import Custody.Proofs.Store.Overlay

/-!
# Layers nest as transactions

A reader of a store cannot tell layers of pending writes from copies.  A **stack** is a plain map
under a full copy for each transaction that is open: to open one copies the map on top, to commit
it puts the copy in place of the map below, and to abandon it throws the copy away.  A store and the
stack that it stands for give the same reply to each request, and after it the store stands for what
has become of the stack.

* `Store.serve`, `Stack.serve`: a request to a store, and to a stack.
* `Store.stack`: the stack that a store stands for.
* `Store.serve_stack`: **one request**, and from it `Store.serveAll_stack`, any number of them.
* `Store.layers_nest`: **layers behave as transactions, at any depth.**
-/

namespace Custody

/-! ### Requests -/

/-- A request to a store. -/
inductive Request where
  | get (key : Bytes)
  | contains (key : Bytes)
  | scan (stem : Bytes)
  | set (key value : Bytes)
  | delete (key : Bytes)
  /-- Opens a transaction. -/
  | branch
  /-- Closes the innermost transaction and keeps what it wrote. -/
  | commit
  /-- Closes the innermost transaction and forgets what it wrote. -/
  | abandon
  deriving DecidableEq

/-- The reply to a request. -/
inductive Reply where
  | value (v : Option Bytes)
  | flag (b : Bool)
  | entries (l : List (Bytes × Bytes))
  /-- The number of keys that a transaction wrote. -/
  | count (n : Nat)
  | done
  deriving DecidableEq

namespace Request

variable {σ τ : Type}

/-- The replies to requests that are served one after the other, and the state that is left. -/
def serveAll (serve : σ → Request → Reply × σ) (s : σ) : List Request → List Reply × σ
  | [] => ([], s)
  | r :: rest =>
    let (reply, s) := serve s r
    let (replies, s) := serveAll serve s rest
    (reply :: replies, s)

/-- If one state stands for another and each request shows it, so do all requests. -/
theorem serveAll_map {serve : σ → Request → Reply × σ} {serve' : τ → Request → Reply × τ}
    {f : σ → τ} (h : ∀ s r, serve' (f s) r = ((serve s r).1, f (serve s r).2)) (s : σ)
    (requests : List Request) : serveAll serve' (f s) requests =
      ((serveAll serve s requests).1, f (serveAll serve s requests).2) := by
  induction requests generalizing s with
  | nil => rfl
  | cons r rest ih =>
    rw [serveAll, serveAll, h]
    exact congrArg (fun p => ((serve s r).1 :: p.1, p.2)) (ih (serve s r).2)

end Request

/-- Serves a request. -/
def Store.serve (s : Store) : Request → Reply × Store
  | .get key => (.value (s.get? key), s)
  | .contains key => (.flag (s.contains key), s)
  | .scan stem => (.entries (s.scan stem), s)
  | .set key value => (.done, s.set key value)
  | .delete key => (.done, s.delete key)
  | .branch => (.done, s.branch)
  | .commit => (.count s.pendingWrites, s.commit)
  | .abandon => (.done, s.abandon)

/-! ### Stacks of plain maps -/

/-- The copy of a map that a transaction works on. -/
structure Draft where
  map : Contents
  /-- The keys that were written since it was made. -/
  written : Finset Bytes

/-- A map under the drafts of the open transactions, the innermost first. -/
structure Stack where
  base : Contents
  drafts : List Draft

namespace Stack

/-- A map without open transactions. -/
def ofContents (m : Contents) : Stack := ⟨m, []⟩

/-- The map on top. -/
def top (t : Stack) : Contents :=
  match t.drafts with
  | [] => t.base
  | draft :: _ => draft.map

/-- Writes a value to the map on top, or removes it. -/
def put (t : Stack) (key : Bytes) (value : Option Bytes) : Stack :=
  match t.drafts with
  | [] => { t with base := t.base.put key value }
  | draft :: below =>
    { t with drafts := ⟨draft.map.put key value, insert key draft.written⟩ :: below }

/-- Copies the map on top. -/
def branch (t : Stack) : Stack := { t with drafts := ⟨t.top, ∅⟩ :: t.drafts }

/-- The number of keys that the innermost transaction wrote. -/
def pendingWrites (t : Stack) : Nat :=
  match t.drafts with
  | [] => 0
  | draft :: _ => draft.written.card

/-- Puts the map on top in place of the one below it, which is thereby written to. -/
def commit (t : Stack) : Stack :=
  match t.drafts with
  | [] => t
  | [draft] => ofContents draft.map
  | draft :: next :: below =>
    { t with drafts := ⟨draft.map, next.written ∪ draft.written⟩ :: below }

/-- Throws the map on top away. -/
def abandon (t : Stack) : Stack := { t with drafts := t.drafts.tail }

/-- Serves a request. -/
def serve (t : Stack) : Request → Reply × Stack
  | .get key => (.value (t.top.get? key), t)
  | .contains key => (.flag (t.top.contains key), t)
  | .scan stem => (.entries (t.top.bindings.filter fun e => stem.isPrefixOf e.1), t)
  | .set key value => (.done, t.put key (some value))
  | .delete key => (.done, t.put key none)
  | .branch => (.done, t.branch)
  | .commit => (.count t.pendingWrites, t.commit)
  | .abandon => (.done, t.abandon)

end Stack

/-! ### Layers as drafts -/

/-- The keys that a layer writes. -/
def Layer.written (layer : Layer) : Finset Bytes := layer.keys.toFinset

theorem Layer.mem_written {layer : Layer} {k : Bytes} :
    k ∈ layer.written ↔ layer.get? k ≠ none := by
  rw [written, List.mem_toFinset, SortedMap.mem_keys, Option.ne_none_iff_exists']

theorem Layer.card_written (layer : Layer) : layer.written.card = layer.size := by
  have hnodup : layer.keys.Nodup := AscendingBy.nodup_map layer.ascending
  rw [written, List.toFinset_card_of_nodup hnodup, SortedMap.keys, List.length_map,
    SortedMap.size]

theorem Layer.written_insert (layer : Layer) (key : Bytes) (value : Option Bytes) :
    written (layer.insert key value) = insert key layer.written := by
  ext k
  rw [Finset.mem_insert, mem_written, mem_written, SortedMap.get?_insert_eq]
  by_cases hk : k = key
  · simp [hk]
  · simp [hk]

/-- A layer that takes the writes of another one writes the keys of both. -/
theorem Layer.written_foldl_insert (top next : Layer) :
    written (top.bindings.foldl (fun l w => l.insert w.1 w.2) next) =
      next.written ∪ top.written := by
  ext k
  rw [Finset.mem_union, mem_written, mem_written, mem_written, SortedMap.get?_foldl_bindings]
  cases top.get? k with
  | none => simp
  | some w => simp

namespace Store

/-- The drafts that layers over a map stand for. -/
def drafts (base : Contents) : List Layer → List Draft
  | [] => []
  | layer :: below => ⟨flatten base (layer :: below), layer.written⟩ :: drafts base below

/-- The stack that a store stands for. -/
def stack (s : Store) : Stack := ⟨s.base, drafts s.base s.layers⟩

variable (s : Store)

theorem top_stack : s.stack.top = s.contents := by
  obtain ⟨base, layers⟩ := s
  cases layers with
  | nil => rfl
  | cons layer below => rfl

theorem branch_stack : s.branch.stack = s.stack.branch := by
  have hdraft : (⟨s.contents, Layer.written ∅⟩ : Draft) = ⟨s.stack.top, ∅⟩ := by
    rw [top_stack]
    rfl
  exact congrArg (fun draft => Stack.mk s.base (draft :: drafts s.base s.layers)) hdraft

theorem abandon_stack : s.abandon.stack = s.stack.abandon := by
  obtain ⟨base, layers⟩ := s
  cases layers with
  | nil => rfl
  | cons layer below => rfl

theorem put_stack (key : Bytes) (value : Option Bytes) :
    (s.put key value).stack = s.stack.put key value := by
  obtain ⟨base, layers⟩ := s
  cases layers with
  | nil => rfl
  | cons layer below =>
    have hmap : flatten base (layer.insert key value :: below) =
        (flatten base (layer :: below)).put key value :=
      Contents.apply_insert (flatten base below) layer key value
    rw [put, stack, stack, drafts, hmap, Layer.written_insert]
    rfl

theorem pendingWrites_stack : s.stack.pendingWrites = s.pendingWrites := by
  obtain ⟨base, layers⟩ := s
  cases layers with
  | nil => rfl
  | cons layer below => exact layer.card_written

/-- **Committed writes put the draft in place of the map below.**  The map below gets the writes of
the layer alone, but with them it says what the draft says. -/
theorem commit_stack : s.commit.stack = s.stack.commit := by
  obtain ⟨base, layers⟩ := s
  cases layers with
  | nil => rfl
  | cons layer below =>
    cases below with
    | nil =>
      have hcommit : (Store.mk base [layer]).commit = ofContents (base.apply layer) :=
        foldl_put_ofContents layer.bindings base
      rw [hcommit]
      rfl
    | cons next below =>
      have hcommit : (Store.mk base (layer :: next :: below)).commit =
          Store.mk base (layer.bindings.foldl (fun l w => l.insert w.1 w.2) next :: below) :=
        foldl_put_cons layer.bindings base next below
      have hmap : flatten base (layer.bindings.foldl (fun l w => l.insert w.1 w.2) next :: below) =
          flatten base (layer :: next :: below) := by
        have hcontents := contents_foldl_put layer.bindings (Store.mk base (next :: below))
        rwa [foldl_put_cons] at hcontents
      rw [hcommit, stack, drafts, hmap, Layer.written_foldl_insert]
      rfl

/-! ### Replies -/

theorem contains_eq (key : Bytes) : s.contains key = s.contents.contains key := by
  rw [contains, get?_eq, SortedMap.contains]

/-- What a scan finds is the part of the map on top whose keys begin alike. -/
theorem scan_eq_filter (stem : Bytes) :
    s.scan stem = s.contents.bindings.filter fun e => stem.isPrefixOf e.1 := by
  rw [scan, lookupRange_eq, Contents.range, SortedMap.stretch_isPrefixOf]
  rfl

theorem mem_scan {stem k v : Bytes} :
    (k, v) ∈ s.scan stem ↔ stem <+: k ∧ s.contents.get? k = some v := by
  rw [scan_eq_filter, List.mem_filter, SortedMap.mem_bindings, List.isPrefixOf_iff_prefix,
    and_comm]

theorem scan_ascending (stem : Bytes) : AscendingBy Prod.fst (s.scan stem) := by
  rw [scan_eq_filter]
  exact s.contents.ascending.filter _

/-- **A store and the stack that it stands for serve a request alike.** -/
theorem serve_stack (r : Request) :
    s.stack.serve r = ((s.serve r).1, (s.serve r).2.stack) := by
  cases r with
  | get key => rw [Stack.serve, serve, top_stack, get?_eq]
  | contains key => rw [Stack.serve, serve, top_stack, contains_eq]
  | scan stem => rw [Stack.serve, serve, top_stack, scan_eq_filter]
  | set key value => rw [Stack.serve, serve, set, put_stack]
  | delete key => rw [Stack.serve, serve, delete, put_stack]
  | branch => rw [Stack.serve, serve, branch_stack]
  | commit => rw [Stack.serve, serve, pendingWrites_stack, commit_stack]
  | abandon => rw [Stack.serve, serve, abandon_stack]

theorem serveAll_stack (requests : List Request) :
    Request.serveAll Stack.serve s.stack requests =
      ((Request.serveAll serve s requests).1, (Request.serveAll serve s requests).2.stack) :=
  Request.serveAll_map serve_stack s requests

/-- **Layers behave as transactions, at any depth.**  Whatever requests come to a map without
layers, every reply and the map that is left below all layers are those of a stack of plain maps, in
which a transaction works on a copy; the reply to a commit is the number of keys that the
transaction wrote.  After any requests, a scan finds exactly the entries of the map on top whose
keys begin with the stem, each once and in the order of bytes. -/
theorem layers_nest (m : Contents) (requests : List Request) :
    (Request.serveAll serve (ofContents m) requests).1 =
      (Request.serveAll Stack.serve (.ofContents m) requests).1 ∧
    (Request.serveAll serve (ofContents m) requests).2.base =
      (Request.serveAll Stack.serve (.ofContents m) requests).2.base ∧
    ∀ stem, AscendingBy Prod.fst ((Request.serveAll serve (ofContents m) requests).2.scan stem) ∧
      ∀ k v, (k, v) ∈ (Request.serveAll serve (ofContents m) requests).2.scan stem ↔ stem <+: k ∧
        (Request.serveAll Stack.serve (.ofContents m) requests).2.top.get? k = some v := by
  have hstack : Request.serveAll Stack.serve (.ofContents m) requests = _ :=
    serveAll_stack (ofContents m) requests
  rw [hstack]
  refine ⟨rfl, rfl, ?_⟩
  intro stem
  refine ⟨scan_ascending _ stem, ?_⟩
  intro k v
  rw [top_stack]
  exact mem_scan _

end Store

end Custody
