import Custody.Ledger.Lifecycle
import Custody.Ledger.Offers
import Custody.Ledger.Properties
import Custody.Ledger.Reporters
import Custody.Message.Check

/-!
# Dispatch

The one entrance for changes.  An envelope is checked on its own, then its message is executed
on a layer over the store; the layer is committed if the message was applied and abandoned if it
was refused.  So a refused message leaves no trace.

* `Ledger.execute`: a message as a transaction.
* `Ledger.dispatch`: an envelope applied to a store, all or nothing.
-/

namespace Custody.Ledger

/-- The change that an envelope asks for, and its outcome. -/
def execute (e : Envelope) : Txn Outcome := do
  let sender := e.sender
  let outcome := Outcome.plain e.message.kind e.message.asset sender
  match e.message with
  | .createAsset id name quantity unit parent properties =>
    let _ ← createAsset id name quantity unit parent properties sender
    return outcome
  | .addQuantity asset amount =>
    let _ ← addQuantity asset amount sender
    return outcome
  | .subtractQuantity asset amount =>
    let _ ← subtractQuantity asset amount sender
    return outcome
  | .addMaterials asset materials =>
    let _ ← addMaterials asset materials sender
    return outcome
  | .updateProperties asset properties =>
    let _ ← updateProperties asset properties sender
    return outcome
  | .finalize asset =>
    let _ ← finalize asset sender
    return outcome
  | .createOffer asset recipient role names =>
    let _ ← createOffer asset recipient role names sender
    return (outcome.withTag "recipient" recipient.text).withTag "role" role.label
  | .answerOffer asset recipient response =>
    let answer ← answerOffer asset recipient response sender e.blockTime
    return (outcome.withTag "recipient" recipient.text).withTag "status" answer.offer.status.label
  | .revokeOffer asset recipient names =>
    let left ← revokeOffer asset recipient names sender
    let status := if left.isSome then "pending" else "revoked"
    return (outcome.withTag "recipient" recipient.text).withTag "status" status
  | .createReporter asset reporter names =>
    let _ ← createReporter asset reporter names sender e.blockTime
    return outcome.withTag "recipient" reporter.text
  | .revokeReporter asset reporter =>
    let _ ← revokeReporter asset reporter sender
    return outcome.withTag "recipient" reporter.text

/-- Runs a transaction on a layer, which is committed if it is done and abandoned if it is
refused. -/
def atomically {α : Type} (t : Txn α) (s : Store) : Verdict α × Store :=
  match t.run s.branch with
  | (.ok a, s) => (.ok a, s.commit)
  | (.error e, s) => (.error e, s.abandon)

/-- Applies an envelope to a store, all or nothing. -/
def dispatch (config : ModuleConfig) (e : Envelope) (s : Store) : Verdict Outcome × Store :=
  match e.check config.limits with
  | .ok () => atomically (execute e) s
  | .error fault => (.error fault, s)

end Custody.Ledger
