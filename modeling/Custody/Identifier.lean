import Custody.Json.Form

/-!
# Identifiers

Accounts, assets and properties are named by texts that come from outside.  The kind of an
identifier is part of its type, so an account cannot stand where an asset is meant.  Identifiers
are ordered by their bytes, which is also how the store orders the keys they are part of.
-/

namespace Custody

open Std

/-- What an identifier names. -/
inductive IdentKind where
  | account
  | asset
  | property
  deriving DecidableEq, Repr

/-- A text that names an account, an asset or a property. -/
structure Ident (kind : IdentKind) where
  text : String
  deriving DecidableEq, Repr

/-- An account: an owner, an issuer, a reporter, a recipient. -/
abbrev AccountId := Ident .account

/-- An asset. -/
abbrev AssetId := Ident .asset

/-- A property of an asset. -/
abbrev PropertyName := Ident .property

namespace Ident

variable {kind : IdentKind}

/-- The bytes of an identifier. -/
def bytes (i : Ident kind) : Bytes := Utf8.ofString i.text

instance : JsonForm (Ident kind) where
  toJson i := .text i.text
  ofJson? j := (ofJson? j).map Ident.mk

instance : ToString (Ident kind) := ⟨Ident.text⟩

/-! ### The order of identifiers -/

instance : Ord (Ident kind) := ⟨compareOn bytes⟩

instance : TransOrd (Ident kind) := inferInstanceAs (TransCmp (compareOn bytes))

instance : LawfulEqOrd (Ident kind) where
  eq_of_compare {i j} h := by
    have hb : i.bytes = j.bytes := LawfulEqOrd.eq_of_compare (α := Bytes) h
    cases i; cases j
    exact congrArg Ident.mk (Utf8.ofString_inj hb)

end Ident

/-- An account together with an asset: an entry of an index, or the holder and the root of a
balance. -/
structure Holding where
  account : AccountId
  asset : AssetId
  deriving DecidableEq, Repr

namespace Holding

/-- Holdings are ordered by account, then by asset. -/
instance : Ord Holding := ⟨compareLex (compareOn account) (compareOn asset)⟩

instance : TransOrd Holding :=
  inferInstanceAs (TransCmp (compareLex (compareOn account) (compareOn asset)))

instance : LawfulEqOrd Holding where
  eq_of_compare {a b} h := by
    have h' := compareLex_eq_eq.mp h
    cases a; cases b
    exact congr (congrArg Holding.mk (LawfulEqOrd.eq_of_compare h'.1))
      (LawfulEqOrd.eq_of_compare h'.2)

end Holding

end Custody
