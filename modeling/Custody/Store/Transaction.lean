import Custody.Fault
import Custody.Store.Key
import Custody.Store.Layered

/-!
# Queries and transactions

A **query** is a reading of a store that may be refused.  A **transaction** may also write.  It
is kept as a program: it observes the store, writes a key, and goes on, until it is done or
refused.  So what a transaction does depends on the store only through what it observes, and the
same transaction can be run on a map of records and on a layer over it.

A refused transaction keeps the writes it made before; to take them back, run it on a layer.

* `Txn.run`: a transaction run on a store.
* `Query.load?`: the record stored under a key.
-/

namespace Custody

/-- A reading of a store. -/
abbrev Query (α : Type) := ReaderT View (Except Fault) α

/-- A program that reads and writes a store. -/
inductive Txn (α : Type) where
  | done (result : Verdict α)
  | observe (next : View → Txn α)
  /-- Writes a value, or removes it. -/
  | write (key : Bytes) (value : Option Bytes) (next : Txn α)

namespace Txn

variable {α β : Type}

/-- Goes on with the result of a transaction, unless it is refused. -/
def bind : Txn α → (α → Txn β) → Txn β
  | done (.ok a), f => f a
  | done (.error e), _ => done (.error e)
  | observe next, f => observe fun v => (next v).bind f
  | write key value next, f => write key value (next.bind f)

instance : Monad Txn where
  pure a := done (.ok a)
  bind := bind

/-- Ends a transaction with a fault. -/
def refuse (e : Fault) : Txn α := done (.error e)

/-- A query as a transaction. -/
def ofQuery (q : Query α) : Txn α := observe fun v => done (q v)

instance : MonadLift Query Txn := ⟨ofQuery⟩

/-- A verdict as a transaction. -/
def ofVerdict (r : Verdict α) : Txn α := done r

instance : MonadLift (Except Fault) Txn := ⟨ofVerdict⟩

/-- Writes a value. -/
def set (key value : Bytes) : Txn Unit := write key (some value) (pure ())

/-- Removes the value of a key, if it has one. -/
def delete (key : Bytes) : Txn Unit := write key none (pure ())

/-- Writes the text of a record. -/
def save [JsonForm α] (key : Bytes) (a : α) : Txn Unit := set key (encode a)

/-- Runs a transaction on a store. -/
def run : Txn α → Store → Verdict α × Store
  | done result, s => (result, s)
  | observe next, s => (next s.view).run s
  | write key value next, s => next.run (s.put key value)

end Txn

namespace Query

variable {α : Type}

/-- The answer of a query on a store. -/
def run (q : Query α) (s : Store) : Verdict α := ReaderT.run q s.view

/-- The value of a key. -/
def get? (key : Bytes) : Query (Option Bytes) := fun v => .ok (v.get? key)

/-- Whether a key has a value. -/
def contains (key : Bytes) : Query Bool := fun v => .ok (v.get? key).isSome

/-- The entries whose keys begin with `stem`, in ascending order of keys. -/
def scan (stem : Bytes) : Query (List (Bytes × Bytes)) := fun v => .ok (v.scan stem)

/-- The record that stored bytes denote. -/
def read [JsonForm α] (key bytes : Bytes) : Verdict α :=
  match decode? bytes with
  | some a => .ok a
  | none => .error (.damagedRecord (Key.display key) .unreadable)

/-- The record stored under a key. -/
def load? [JsonForm α] (key : Bytes) : Query (Option α) := do
  match ← get? key with
  | none => return none
  | some bytes => return some (← read key bytes)

/-- The records that stored entries denote. -/
def readAll [JsonForm α] (entries : List (Bytes × Bytes)) : Verdict (List α) :=
  entries.mapM fun entry => read entry.1 entry.2

/-- The records whose keys begin with `stem`. -/
def loadAll [JsonForm α] (stem : Bytes) : Query (List α) := do
  readAll (← scan stem)

end Query

end Custody
