import Custody.Asset.Basic
import Custody.Ledger.Inventory
import Custody.Offer.Basic
import Custody.Proofs.Json.RoundTrip

/-!
# Records are read back

A JSON form is **lawful** if every value is written as a plain JSON value from which the same value
is read.  The bytes of such a value then denote it (`decode?_encode`).  The scalars, lists and
labels are lawful, and so is every kind of record that the store holds: properties, reporters,
materials, assets, offers and balances.
-/

namespace Custody

/-- A JSON form from which every value is read back; it stands inside `depth` containers at most. -/
class LawfulForm (α : Type) [JsonForm α] (depth : outParam Nat) : Prop where
  isPlain_toJson (a : α) : (toJson a).isPlain depth = true
  ofJson?_toJson (a : α) : ofJson? (toJson a) = some a

open LawfulForm

attribute [simp] LawfulForm.ofJson?_toJson

theorem isPlain_toJson_of_le {α : Type} [JsonForm α] {depth : Nat} [LawfulForm α depth]
    {n : Nat} (h : depth ≤ n) (a : α) :
    (toJson a).isPlain n = true :=
  Json.isPlain_mono h (isPlain_toJson a)

/-- The bytes of a value denote it if it is written as a plain value from which it is read. -/
theorem decode?_encode_of_isPlain {α : Type} [JsonForm α] {depth : Nat} {a : α}
    (hdepth : depth ≤ Json.maxDepth) (hplain : (toJson a).isPlain depth = true)
    (hread : ofJson? (toJson a) = some a) : decode? (encode a) = some a := by
  rw [decode?, encode, Json.parseBytes?_bytes hdepth hplain, Option.bind_some, hread]

/-- **The bytes of a value denote it.** -/
theorem decode?_encode {α : Type} [JsonForm α] {depth : Nat} [LawfulForm α depth]
    (h : depth ≤ Json.maxDepth) (a : α) :
    decode? (encode a) = some a :=
  decode?_encode_of_isPlain h (isPlain_toJson a) (ofJson?_toJson a)

theorem encode_inj {α : Type} [JsonForm α] {depth : Nat} [LawfulForm α depth]
    (h : depth ≤ Json.maxDepth) {a b : α} (hab : encode a = encode b) : a = b := by
  have hdecode := decode?_encode h a
  rw [hab, decode?_encode h] at hdecode
  exact (Option.some.inj hdecode).symm

namespace Json

variable {α : Type}

/-! ### Scalars -/

theorem below?_int {n bound : Nat} (h : n < bound) : below? bound (int n) = some n := by
  rw [show int n = int (.ofNat n) from rfl, below?, if_pos h]

theorem isPlain_int {n : Int} (h : n.natAbs < UInt64.size) (d : Nat) : (int n).isPlain d = true := by
  simpa [isPlain] using h

theorem isPlain_natCast {n : Nat} (h : n < UInt64.size) (d : Nat) : (int n).isPlain d = true :=
  isPlain_int (n := n) h d

instance : LawfulForm UInt64 0 where
  isPlain_toJson n := isPlain_natCast n.toNat_lt 0
  ofJson?_toJson n := by simp [toJson, ofJson?, below?_int n.toNat_lt]

instance : LawfulForm UInt32 0 where
  isPlain_toJson n := isPlain_natCast (Nat.lt_trans n.toNat_lt (by decide)) 0
  ofJson?_toJson n := by simp [toJson, ofJson?, below?_int n.toNat_lt]

instance : LawfulForm UInt8 0 where
  isPlain_toJson n := isPlain_natCast (Nat.lt_trans n.toNat_lt (by decide)) 0
  ofJson?_toJson n := by simp [toJson, ofJson?, below?_int n.toNat_lt]

instance : LawfulForm Int64 0 where
  isPlain_toJson n := by
    have hlow := n.le_toInt
    have hhigh := n.toInt_lt
    have hsize : UInt64.size = 2 ^ 64 := rfl
    exact isPlain_int (by omega) 0
  ofJson?_toJson n := by
    have hlow : Int64.minValue.toInt ≤ n.toInt := n.le_toInt
    have hhigh : n.toInt ≤ Int64.maxValue.toInt := Int.le_of_lt_add_one n.toInt_lt
    simp only [toJson, ofJson?, if_pos (And.intro hlow hhigh), Int64.ofInt_toInt]

instance : LawfulForm Bool 0 where
  isPlain_toJson _ := rfl
  ofJson?_toJson _ := rfl

instance : LawfulForm String 0 where
  isPlain_toJson _ := rfl
  ofJson?_toJson _ := rfl

@[simp] theorem ofJson?_text (s : String) : (ofJson? (text s) : Option String) = some s := rfl

@[simp] theorem ofJson?_bool (b : Bool) : (ofJson? (bool b) : Option Bool) = some b := rfl

theorem isPlain_quantity (n q : Nat) : (quantity q).isPlain n = true := by
  simp [quantity, isPlain]

@[simp] theorem quantity?_quantity (n : Nat) : quantity? (quantity n) = some n := by
  simp [quantity, quantity?, Decimal.read?_write]

/-! ### Lists -/

theorem allPlain_map {write : α → Json} {n : Nat} {l : List α}
    (h : ∀ a ∈ l, (write a).isPlain n = true) : allPlain n (l.map write) = true := by
  induction l with
  | nil => simp [allPlain]
  | cons a l ih =>
    rw [List.map_cons, allPlain, h a List.mem_cons_self,
      ih fun b hb => h b (List.mem_cons_of_mem _ hb), Bool.and_self]

theorem membersPlain_map {name : α → String} {write : α → Json} {n : Nat} {l : List α}
    (h : ∀ a ∈ l, (write a).isPlain n = true) :
    membersPlain n (l.map fun a => (name a, write a)) = true := by
  induction l with
  | nil => simp [membersPlain]
  | cons a l ih =>
    rw [List.map_cons, membersPlain, h a List.mem_cons_self,
      ih fun b hb => h b (List.mem_cons_of_mem _ hb), Bool.and_self]

theorem mapM_map_some {β : Type} {write : α → β} {read? : β → Option α} {l : List α}
    (h : ∀ a ∈ l, read? (write a) = some a) : (l.map write).mapM read? = some l := by
  induction l with
  | nil => rfl
  | cons a l ih =>
    simp [List.mapM_cons, h a List.mem_cons_self, ih fun b hb => h b (List.mem_cons_of_mem _ hb)]

instance [JsonForm α] {depth : Nat} [LawfulForm α depth] : LawfulForm (List α) (depth + 1) where
  isPlain_toJson l := by
    simp only [toJson, listOf, isPlain]
    exact allPlain_map fun a _ => isPlain_toJson a
  ofJson?_toJson _ := mapM_map_some fun a _ => ofJson?_toJson a

instance {β : Type} [JsonForm α] [JsonForm β] {depth : Nat} [LawfulForm α depth]
    [LawfulForm β depth] : LawfulForm (α × β) (depth + 1) where
  isPlain_toJson p := by
    simp [toJson, pair, isPlain, allPlain, isPlain_toJson]
  ofJson?_toJson p := by
    simp [toJson, ofJson?, pair, pair?]

/-! ### Numbers in base `2 ^ 32` -/

theorem limbs_lt {n d : Nat} (h : d ∈ limbs n) : d < limbBase := by
  fun_induction limbs n with
  | case1 => simp at h
  | case2 n hn ih =>
    rcases List.mem_cons.mp h with rfl | h
    · exact Nat.mod_lt _ (by decide)
    · exact ih h

theorem ofLimbs_limbs (n : Nat) : ofLimbs (limbs n) = n := by
  fun_induction limbs n with
  | case1 => rfl
  | case2 n hn ih => rw [ofLimbs, ih, Nat.mod_add_div]

theorem digits32?_digits32 (n : Nat) : digits32? (digits32 n) = some n := by
  have hread : ((limbs n).map count).mapM (below? limbBase) = some (limbs n) :=
    mapM_map_some fun d hd => below?_int (limbs_lt hd)
  rw [digits32?, digits32, listOf, listOf?, hread, Option.map_some, ofLimbs_limbs]

theorem isPlain_digits32 (n : Nat) : (digits32 n).isPlain 1 = true := by
  rw [digits32, listOf, isPlain]
  exact allPlain_map fun d hd => isPlain_natCast (Nat.lt_trans (limbs_lt hd) (by decide)) 0

end Json

/-! ### Labels -/

/-- An enumeration in which no two values share a label. -/
class LawfulLabels (α : Type) [Labelled α] : Prop where
  ofLabel?_label (a : α) : ofLabel? (Labelled.label a) = some a

instance : LawfulLabels PropertyKind := ⟨fun k => by cases k <;> rfl⟩

instance : LawfulLabels OfferRole := ⟨fun r => by cases r <;> rfl⟩

instance : LawfulLabels OfferStatus := ⟨fun s => by cases s <;> rfl⟩

instance : LawfulLabels Response := ⟨fun r => by cases r <;> rfl⟩

instance : LawfulForm PropertyKind 0 := ⟨fun _ => rfl, LawfulLabels.ofLabel?_label⟩

instance : LawfulForm OfferRole 0 := ⟨fun _ => rfl, LawfulLabels.ofLabel?_label⟩

instance : LawfulForm OfferStatus 0 := ⟨fun _ => rfl, LawfulLabels.ofLabel?_label⟩

instance : LawfulForm Response 0 := ⟨fun _ => rfl, LawfulLabels.ofLabel?_label⟩

/-! ### Records -/

instance {kind : IdentKind} : LawfulForm (Ident kind) 0 := ⟨fun _ => rfl, fun _ => rfl⟩

instance : LawfulForm Balance 1 where
  isPlain_toJson b := Json.isPlain_digits32 b.amount
  ofJson?_toJson b := by simp [toJson, ofJson?, Json.digits32?_digits32]

theorem PropertyValue.isPlain_content (v : PropertyValue) : v.content.isPlain 1 = true := by
  cases v with
  | bytes data => exact isPlain_toJson data
  | location latitude longitude =>
    simp [content, Json.isPlain, Json.membersPlain, isPlain_toJson]
  | string text | label text => rfl
  | boolean b => rfl
  | number n => exact isPlain_toJson_of_le (Nat.zero_le 1) n

theorem PropertyValue.ofContent?_content (v : PropertyValue) :
    ofContent? v.content v.kind = some v := by
  cases v <;> simp [content, kind, ofContent?, Json.members?, Json.required?, Json.member?]

/-- A value is read with any reader of types that reads the types as they are written. -/
theorem PropertyValue.read?_toJson {kind? : Json → Option PropertyKind}
    (hkind : ∀ k, kind? (toJson k) = some k) (v : PropertyValue) :
    read? kind? (toJson v) = some v := by
  have hfields : (toJson v : Json) = .object [("type", toJson v.kind), ("value", v.content)] := rfl
  rw [hfields, read?]
  simp [Json.required?, Json.member?, hkind, valueFirst, v.ofContent?_content]

instance : LawfulForm PropertyValue 2 where
  isPlain_toJson v := by
    delta PropertyValue.instJsonForm
    simp [Json.isPlain, Json.membersPlain, v.isPlain_content,
      isPlain_toJson_of_le]
  ofJson?_toJson := PropertyValue.read?_toJson ofJson?_toJson

theorem Property.read?_toJson {kind? : Json → Option PropertyKind}
    (hkind : ∀ k, kind? (toJson k) = some k) (p : Property) :
    read? kind? (toJson p) = some p := by
  have hfields : (toJson p : Json) = .object [("name", toJson p.name), ("value", toJson p.value)] :=
    rfl
  rw [hfields, read?]
  simp [Json.required?, Json.member?, PropertyValue.read?_toJson hkind]

instance : LawfulForm Property 3 where
  isPlain_toJson p := by
    delta Property.instJsonForm
    simp [Json.isPlain, Json.membersPlain, isPlain_toJson_of_le]
  ofJson?_toJson := Property.read?_toJson ofJson?_toJson

instance : LawfulForm Material 1 where
  isPlain_toJson m := by
    delta Material.instJsonForm
    simp [Json.isPlain, Json.membersPlain, isPlain_toJson_of_le,
      Json.isPlain_quantity]
  ofJson?_toJson m := by
    delta Material.instJsonForm
    simp [Json.required?, Json.member?]

instance : LawfulForm Reporter 2 where
  isPlain_toJson r := by
    delta Reporter.instJsonForm
    simp [Json.isPlain, Json.membersPlain, isPlain_toJson_of_le]
  ofJson?_toJson r := by
    delta Reporter.instJsonForm
    simp [Json.required?, Json.member?]

instance : LawfulForm Offer 2 where
  isPlain_toJson o := by
    delta Offer.instJsonForm
    simp [Json.isPlain, Json.membersPlain, isPlain_toJson_of_le]
  ofJson?_toJson o := by
    delta Offer.instJsonForm
    simp [Json.required?, Json.member?]

-- a record of many members is read bind by bind: under `Option.bind` each would be visited anew
theorem some_bind {α β : Type} (a : α) (f : α → Option β) : (some a >>= f) = f a := rfl

instance : LawfulForm Asset 5 where
  isPlain_toJson a := by
    delta Asset.instJsonForm
    cases hp : a.parent <;>
      simp [hp, Json.omittable, Json.isPlain, Json.membersPlain,
        isPlain_toJson_of_le, Json.isPlain_quantity]
  ofJson?_toJson a := by
    obtain ⟨_, _, _, _, _, _, parent, _, _, _, _, _⟩ := a
    delta Asset.instJsonForm
    cases parent <;>
      simp only [Json.fields?_object, Json.omittable, Json.required?, Json.optional?, Json.nullable?,
        Json.defaulted?, Json.member?, List.append_nil, List.nil_append, List.cons_append,
        List.filter_cons, ↓reduceIte, List.filter_nil, BEq.rfl, String.reduceBEq,
        Bool.false_eq_true, reduceCtorEq, imp_self, some_bind, Option.pure_def, Option.map_some,
        ofJson?_toJson, Json.ofJson?_text, Json.ofJson?_bool, Json.quantity?_quantity]

end Custody
