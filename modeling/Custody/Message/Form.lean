import Custody.Message.Basic

/-!
# Messages as JSON

A message is an object whose member `type` holds the label of its kind; it may stand anywhere in
the object.  A message is also read from a list, which has the label first and then the fields in
their order.  The whole message is read before its kind is known, so nothing in it may be
unreadable, also in members that are skipped.
-/

namespace Custody

namespace Message

/-- The members of a message other than `type`. -/
def members : Message → List (String × Json)
  | createAsset id name quantity unit parent properties =>
    [("id", toJson id), ("name", .text name), ("quantity", .quantity quantity),
      ("unit", .text unit)] ++
    Json.omittable "parent_id" toJson parent ++ [("properties", toJson properties)]
  | addQuantity asset amount => [("asset_id", toJson asset), ("amount", .quantity amount)]
  | subtractQuantity asset amount => [("asset_id", toJson asset), ("amount", .quantity amount)]
  | addMaterials asset materials =>
    [("asset_id", toJson asset), ("materials", toJson materials)]
  | updateProperties asset properties =>
    [("asset_id", toJson asset), ("properties", toJson properties)]
  | finalize asset => [("asset_id", toJson asset)]
  | createOffer asset recipient role names =>
    [("asset_id", toJson asset), ("recipient", toJson recipient), ("role", toJson role),
      ("property_names", toJson names)]
  | answerOffer asset recipient response =>
    [("asset_id", toJson asset), ("recipient", toJson recipient), ("response", toJson response)]
  | revokeOffer asset recipient names =>
    [("asset_id", toJson asset), ("recipient", toJson recipient),
      ("property_names", toJson names)]
  | createReporter asset reporter names =>
    [("asset_id", toJson asset), ("reporter", toJson reporter), ("property_names", toJson names)]
  | revokeReporter asset reporter =>
    [("asset_id", toJson asset), ("reporter", toJson reporter)]

/-- The names of the fields of a kind of message in their order: those that are needed, and the
others. -/
def fieldNames : MessageKind → List String × List String
  | .createAsset => (["id", "name", "quantity", "unit"], ["parent_id", "properties"])
  | .addQuantity | .subtractQuantity => (["asset_id", "amount"], [])
  | .addMaterials => (["asset_id", "materials"], [])
  | .updateProperties => (["asset_id", "properties"], [])
  | .finalize => (["asset_id"], [])
  | .createOffer => (["asset_id", "recipient", "role"], ["property_names"])
  | .answerOffer => (["asset_id", "recipient", "response"], [])
  | .revokeOffer => (["asset_id", "recipient"], ["property_names"])
  | .createReporter => (["asset_id", "reporter"], ["property_names"])
  | .revokeReporter => (["asset_id", "reporter"], [])

/-- Reads properties inside a message. -/
def properties? : Json → Option (List Property) :=
  Json.listOf? (Property.read? Labelled.ofBuffered?)

/-- Reads the members of a message of a kind. -/
def ofMembers? (ms : List (String × Json)) : MessageKind → Option Message
  | .createAsset => do
    let id ← Json.required? ms "id" ofJson?
    let name ← Json.required? ms "name" ofJson?
    let quantity ← Json.required? ms "quantity" Json.quantity?
    let unit ← Json.required? ms "unit" ofJson?
    let parent ← Json.optional? ms "parent_id" ofJson?
    let properties ← Json.defaulted? ms "properties" properties? []
    return createAsset id name quantity unit parent properties
  | .addQuantity => do
    let asset ← Json.required? ms "asset_id" ofJson?
    let amount ← Json.required? ms "amount" Json.quantity?
    return addQuantity asset amount
  | .subtractQuantity => do
    let asset ← Json.required? ms "asset_id" ofJson?
    let amount ← Json.required? ms "amount" Json.quantity?
    return subtractQuantity asset amount
  | .addMaterials => do
    let asset ← Json.required? ms "asset_id" ofJson?
    let materials ← Json.required? ms "materials" ofJson?
    return addMaterials asset materials
  | .updateProperties => do
    let asset ← Json.required? ms "asset_id" ofJson?
    let properties ← Json.required? ms "properties" properties?
    return updateProperties asset properties
  | .finalize => do
    let asset ← Json.required? ms "asset_id" ofJson?
    return finalize asset
  | .createOffer => do
    let asset ← Json.required? ms "asset_id" ofJson?
    let recipient ← Json.required? ms "recipient" ofJson?
    let role ← Json.required? ms "role" Labelled.ofBuffered?
    let names ← Json.defaulted? ms "property_names" ofJson? []
    return createOffer asset recipient role names
  | .answerOffer => do
    let asset ← Json.required? ms "asset_id" ofJson?
    let recipient ← Json.required? ms "recipient" ofJson?
    let response ← Json.required? ms "response" Labelled.ofBuffered?
    return answerOffer asset recipient response
  | .revokeOffer => do
    let asset ← Json.required? ms "asset_id" ofJson?
    let recipient ← Json.required? ms "recipient" ofJson?
    let names ← Json.defaulted? ms "property_names" ofJson? []
    return revokeOffer asset recipient names
  | .createReporter => do
    let asset ← Json.required? ms "asset_id" ofJson?
    let reporter ← Json.required? ms "reporter" ofJson?
    let names ← Json.defaulted? ms "property_names" ofJson? []
    return createReporter asset reporter names
  | .revokeReporter => do
    let asset ← Json.required? ms "asset_id" ofJson?
    let reporter ← Json.required? ms "reporter" ofJson?
    return revokeReporter asset reporter

/-- Reads a message of which all is readable. -/
def ofReadable? : Json → Option Message
  | .object ms => do
    let kind ← Json.required? ms "type" Labelled.ofText?
    ofMembers? ms kind
  | .list (label :: items) => do
    let kind ← Labelled.ofText? label
    let ms ← (Json.list items).fields? (fieldNames kind).1 (fieldNames kind).2
    ofMembers? ms kind
  | _ => none

instance : JsonForm Message where
  toJson m := .object (("type", toJson m.kind) :: m.members)
  ofJson? j := if j.isReadable then ofReadable? j else none

/-- The message that a text denotes. -/
def parse (s : String) : Verdict Message :=
  match decodeText? s with
  | some m => .ok m
  | none => .error (.invalidField "message" .notMessage)

end Message

instance : JsonForm Envelope where
  toJson e := .object
    [("sender", toJson e.sender), ("block_time", toJson e.blockTime),
      ("message", toJson e.message)]
  ofJson? j := do
    let ms ← j.fields? ["sender", "block_time", "message"] []
    return {
      sender := ← Json.required? ms "sender" ofJson?
      blockTime := ← Json.required? ms "block_time" ofJson?
      message := ← Json.required? ms "message" ofJson? }

instance : JsonForm Tag where
  toJson t := .object [("key", .text t.key), ("value", .text t.value)]
  ofJson? j := do
    let ms ← j.fields? ["key", "value"] []
    return {
      key := ← Json.required? ms "key" ofJson?
      value := ← Json.required? ms "value" ofJson? }

instance : JsonForm Outcome where
  toJson o := .object [("kind", toJson o.kind), ("tags", toJson o.tags)]
  ofJson? j := do
    let ms ← j.fields? ["kind", "tags"] []
    return {
      kind := ← Json.required? ms "kind" ofJson?
      tags := ← Json.required? ms "tags" ofJson? }

end Custody
