import Custody.SortedMap
import Custody.Text.Utf8

/-!
# The store

A store is a map from keys to values with any number of layers of pending writes over it.
Reading looks through the layers, the innermost first; writing goes to the innermost layer, or
to the map itself if there is none.  A layer is either committed, which writes what it holds to
what lies below, or abandoned, which leaves no trace of it.

* `Store.get?`, `Store.scan`: reading one key, and all keys that begin alike.
* `Store.set`, `Store.delete`: writing.
* `Store.branch`, `Store.commit`, `Store.abandon`: layers.
-/

namespace Custody

/-- What a map of records holds. -/
abbrev Contents := SortedMap Bytes Bytes

/-- Pending writes: a new value for a key, or its removal. -/
abbrev Layer := SortedMap Bytes (Option Bytes)

/-- A map of records under layers of pending writes, the innermost first. -/
structure Store where
  base : Contents
  layers : List Layer
  deriving DecidableEq

/-- What a reader sees of a store: the value of each key, and the entries of each range of keys
that begin alike. -/
structure View where
  get? : Bytes → Option Bytes
  scan : Bytes → List (Bytes × Bytes)

namespace Contents

/-- Writes a value, or removes it. -/
def put (m : Contents) (key : Bytes) : Option Bytes → Contents
  | some value => m.insert key value
  | none => m.erase key

/-- The part of the map whose keys begin with `stem`: in the order of bytes they stand together,
from `stem` on. -/
def range (m : Contents) (stem : Bytes) : Contents :=
  m.stretch stem fun key => stem.isPrefixOf key

/-- Does all writes of a layer. -/
def apply (m : Contents) (writes : Layer) : Contents :=
  writes.bindings.foldl (fun m w => put m w.1 w.2) m

/-- What a reader sees of the map. -/
def view (m : Contents) : View where
  get? := m.get?
  scan stem := (range m stem).bindings

end Contents

namespace Store

/-- A store without layers. -/
def ofContents (m : Contents) : Store := ⟨m, []⟩

/-- A store with the given entries; a later one of a key replaces an earlier one. -/
def ofEntries (entries : List (Bytes × Bytes)) : Store := ofContents (SortedMap.ofList entries)

/-- The store without entries and layers. -/
def empty : Store := ofContents ∅

/-! ### Reading -/

/-- The value of a key, seen through layers. -/
def lookup (base : Contents) (key : Bytes) : List Layer → Option Bytes
  | [] => base.get? key
  | layer :: below =>
    match layer.get? key with
    | some written => written
    | none => lookup base key below

/-- The entries whose keys begin with `stem`, seen through layers. -/
def lookupRange (base : Contents) (stem : Bytes) : List Layer → Contents
  | [] => base.range stem
  | layer :: below =>
    (lookupRange base stem below).apply (layer.stretch stem fun key => stem.isPrefixOf key)

/-- The value of a key. -/
def get? (s : Store) (key : Bytes) : Option Bytes := lookup s.base key s.layers

/-- Whether a key has a value. -/
def contains (s : Store) (key : Bytes) : Bool := (s.get? key).isSome

/-- The entries whose keys begin with `stem`, in ascending order of keys. -/
def scan (s : Store) (stem : Bytes) : List (Bytes × Bytes) :=
  (lookupRange s.base stem s.layers).bindings

/-- What a reader sees of the store. -/
def view (s : Store) : View := ⟨s.get?, s.scan⟩

/-! ### Writing -/

/-- Writes a value, or removes it. -/
def put (s : Store) (key : Bytes) (value : Option Bytes) : Store :=
  match s.layers with
  | [] => { s with base := s.base.put key value }
  | layer :: below => { s with layers := layer.insert key value :: below }

/-- Writes a value. -/
def set (s : Store) (key value : Bytes) : Store := s.put key (some value)

/-- Removes the value of a key, if it has one. -/
def delete (s : Store) (key : Bytes) : Store := s.put key none

/-! ### Layers -/

/-- Opens a layer. -/
def branch (s : Store) : Store := { s with layers := ∅ :: s.layers }

/-- The number of keys that the innermost layer writes. -/
def pendingWrites (s : Store) : Nat :=
  match s.layers with
  | [] => 0
  | layer :: _ => layer.size

/-- Gives up the innermost layer. -/
def abandon (s : Store) : Store := { s with layers := s.layers.tail }

/-- Writes what the innermost layer holds to what lies below it. -/
def commit (s : Store) : Store :=
  match s.layers with
  | [] => s
  | layer :: below => layer.bindings.foldl (fun s w => s.put w.1 w.2) { s with layers := below }

end Store

end Custody
