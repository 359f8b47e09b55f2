import Custody.Label

/-!
# The terms of an offer

An owner offers a role on an asset to a recipient.  The offer is pending until it is answered:
the recipient accepts or rejects it, or its issuer cancels it.
-/

namespace Custody

/-- The role that an offer offers. -/
inductive OfferRole where
  /-- Full custody of the asset. -/
  | owner
  /-- Write access to the listed property names. -/
  | reporter
  deriving DecidableEq, Repr

namespace OfferRole

def label : OfferRole → String
  | owner => "owner"
  | reporter => "reporter"

instance : Labelled OfferRole := ⟨[owner, reporter], label⟩

instance : JsonForm OfferRole := ⟨Labelled.toJson, Labelled.ofJson?⟩

end OfferRole

/-- The state of an offer.  Only a pending one is ever stored. -/
inductive OfferStatus where
  | pending
  | accepted
  | cancelled
  | rejected
  deriving DecidableEq, Repr

namespace OfferStatus

def label : OfferStatus → String
  | pending => "pending"
  | accepted => "accepted"
  | cancelled => "cancelled"
  | rejected => "rejected"

instance : Labelled OfferStatus := ⟨[pending, accepted, cancelled, rejected], label⟩

instance : JsonForm OfferStatus := ⟨Labelled.toJson, Labelled.ofJson?⟩

/-- Whether the offer has been answered. -/
def isTerminal (s : OfferStatus) : Bool := s != pending

end OfferStatus

/-- An answer to a pending offer. -/
inductive Response where
  | accept
  | reject
  | cancel
  deriving DecidableEq, Repr

namespace Response

def label : Response → String
  | accept => "accept"
  | reject => "reject"
  | cancel => "cancel"

instance : Labelled Response := ⟨[accept, reject, cancel], label⟩

instance : JsonForm Response := ⟨Labelled.toJson, Labelled.ofJson?⟩

/-- The state in which the answer leaves the offer. -/
def status : Response → OfferStatus
  | accept => .accepted
  | reject => .rejected
  | cancel => .cancelled

end Response

end Custody
