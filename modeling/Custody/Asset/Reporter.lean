import Custody.Asset.Property

/-!
# Reporters

A reporter is an account that may write the listed properties of an asset it does not own.
-/

namespace Custody

/-- A grant of write access to one account. -/
structure Reporter where
  account : AccountId
  /-- The names the account may write, in order and each once. -/
  names : List PropertyName
  /-- The block time of the grant. -/
  createdAt : UInt64
  deriving DecidableEq, Repr

namespace Reporter

/-- A grant of the given names, in any order. -/
def grant (account : AccountId) (names : List PropertyName) (createdAt : UInt64) : Reporter :=
  ⟨account, normalizeNames names, createdAt⟩

/-- Whether the reporter may write the named property: found by bisection. -/
def canWrite (r : Reporter) (name : PropertyName) : Bool :=
  match bisect (fun n => compare n name) r.names with
  | .found _ => true
  | .missing _ => false

instance : JsonForm Reporter where
  toJson r := .object
    [("account", toJson r.account), ("properties", toJson r.names),
      ("created_at", toJson r.createdAt)]
  ofJson? j := do
    let members ← j.fields? ["account", "properties", "created_at"] []
    return {
      account := ← Json.required? members "account" ofJson?
      names := ← Json.required? members "properties" ofJson?
      createdAt := ← Json.required? members "created_at" ofJson? }

end Reporter

end Custody
