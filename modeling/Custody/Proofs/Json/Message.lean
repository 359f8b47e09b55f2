import Custody.Message.Form
import Custody.Proofs.Json.Faithful

/-!
# Messages are read back

A message is written with its kind as one more member, and read only if no part of it is unreadable:
both are so of what is written.

* `Message.ofMembers?_members`: a kind reads the members of its own messages.
* `Message.parse_encodeText`: a message is read from its text.
* The instances of `LawfulForm` for messages, envelopes, tags and outcomes.
-/

namespace Custody

open LawfulForm

instance : LawfulLabels MessageKind := ⟨fun k => by cases k <;> rfl⟩

instance : LawfulForm MessageKind 0 := ⟨fun _ => rfl, LawfulLabels.ofLabel?_label⟩

/-- Inside a value that was read in full, a label is read like any other. -/
theorem Labelled.ofBuffered?_toJson {α : Type} [Labelled α] [LawfulLabels α] (a : α) :
    ofBuffered? (Labelled.toJson a) = some a := LawfulLabels.ofLabel?_label a

namespace Message

@[simp] theorem properties?_toJson (properties : List Property) :
    properties? (toJson properties) = some properties :=
  Json.mapM_map_some fun p _ => Property.read?_toJson Labelled.ofBuffered?_toJson p

theorem isPlain_members (m : Message) : Json.membersPlain 4 m.members = true := by
  cases m with
  | createAsset id name quantity unit parent properties =>
    cases parent <;>
      simp [members, Json.omittable, Json.membersPlain, Json.isPlain, isPlain_toJson_of_le,
        Json.isPlain_quantity]
  | _ =>
    simp [members, Json.membersPlain, isPlain_toJson_of_le, Json.isPlain_quantity]

theorem type_notMem_members (m : Message) : ∀ member ∈ m.members, member.1 ≠ "type" := by
  cases m with
  | createAsset id name quantity unit parent properties =>
    cases parent <;> simp [members, Json.omittable]
  | _ => simp [members]

/-- A kind reads the members of its own messages, after whatever was put before them. -/
theorem ofMembers?_members (m : Message) (j : Json) :
    ofMembers? (("type", j) :: m.members) m.kind = some m := by
  cases m with
  | createAsset id name quantity unit parent properties =>
    cases parent with
    | none =>
      simp [members, kind, ofMembers?, Json.omittable, Json.required?, Json.optional?,
        Json.defaulted?, Json.member?]
    | some p =>
      have hparent : Json.nullable? ofJson? (toJson p) = some (some p) :=
        Json.nullable?_eq_some rfl (ofJson?_toJson p)
      simp [members, kind, ofMembers?, Json.omittable, Json.required?, Json.optional?,
        Json.defaulted?, Json.member?, hparent]
  | createOffer asset recipient role names =>
    have hrole : Labelled.ofBuffered? (toJson role) = some role := Labelled.ofBuffered?_toJson role
    simp [members, kind, ofMembers?, Json.required?, Json.defaulted?, Json.member?, hrole]
  | answerOffer asset recipient response =>
    have hresponse : Labelled.ofBuffered? (toJson response) = some response :=
      Labelled.ofBuffered?_toJson response
    simp [members, kind, ofMembers?, Json.required?, Json.member?, hresponse]
  | _ =>
    simp [members, kind, ofMembers?, Json.required?, Json.defaulted?, Json.member?]

end Message

theorem Message.isPlain_toJson (m : Message) : (toJson m).isPlain 5 = true := by
  have hkind : (toJson m.kind).isPlain 4 = true := isPlain_toJson_of_le (by decide) m.kind
  change (Json.object (("type", toJson m.kind) :: m.members)).isPlain 5 = true
  rw [Json.isPlain, Json.membersPlain, hkind, m.isPlain_members, Bool.and_self]

instance : LawfulForm Message 5 where
  isPlain_toJson := Message.isPlain_toJson
  ofJson?_toJson m := by
    have hreadable : (toJson m).isReadable = true := Json.isReadable_of_isPlain m.isPlain_toJson
    have hkind : Json.required? (("type", toJson m.kind) :: m.members) "type" Labelled.ofText? =
        some m.kind := by
      have hmember : Json.member? (("type", toJson m.kind) :: m.members) "type" =
          some (some (toJson m.kind)) := by
        have hnone : (m.members.filter fun member => member.1 == "type") = [] :=
          List.filter_eq_nil_iff.mpr fun member hm => by simpa using m.type_notMem_members member hm
        simp only [Json.member?, List.filter_cons, BEq.rfl, if_true, hnone]
      rw [Json.required?, hmember]
      exact LawfulLabels.ofLabel?_label m.kind
    change (if (toJson m).isReadable then _ else none) = some m
    rw [if_pos hreadable]
    change (Json.required? (("type", toJson m.kind) :: m.members) "type" Labelled.ofText? >>=
      Message.ofMembers? (("type", toJson m.kind) :: m.members)) = some m
    rw [hkind]
    exact m.ofMembers?_members _

/-- **A message is read from its text.** -/
theorem Message.parse_encodeText (m : Message) : parse (encodeText m) = .ok m := by
  have hdecode : (decodeText? (encodeText m) : Option Message) = some m :=
    LawfulForm.faithful.decodeText?_encodeText (by decide) trivial
  rw [parse, hdecode]

instance : LawfulForm Envelope 6 where
  isPlain_toJson e := by
    delta instJsonFormEnvelope
    simp [Json.isPlain, Json.membersPlain, isPlain_toJson_of_le]
  ofJson?_toJson e := by
    delta instJsonFormEnvelope
    simp [Json.required?, Json.member?]

instance : LawfulForm Tag 1 where
  isPlain_toJson t := by
    delta instJsonFormTag
    simp [Json.isPlain, Json.membersPlain]
  ofJson?_toJson t := by
    delta instJsonFormTag
    simp [Json.required?, Json.member?]

instance : LawfulForm Outcome 3 where
  isPlain_toJson o := by
    delta instJsonFormOutcome
    simp [Json.isPlain, Json.membersPlain, isPlain_toJson_of_le]
  ofJson?_toJson o := by
    delta instJsonFormOutcome
    simp [Json.required?, Json.member?]

end Custody
