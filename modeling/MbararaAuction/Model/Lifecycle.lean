import MbararaAuction.Model.Notifications

namespace MbararaAuction
open Transactions

/-- `ALLOWED_TRANSITIONS`. -/
def allowedTransitions : Status → List Status
  | .draft => [.submitted, .cancelled]
  | .submitted => [.approved, .rejected]
  | .approved => [.scheduled]
  | .scheduled => [.live, .cancelled]
  | .live => [.paused, .closed, .cancelled, .disputed]
  | .paused => [.live, .cancelled]
  | .closed => [.settled, .disputed]
  | .settled => [.completed, .disputed]
  | .disputed => [.closed]
  | .rejected => []
  | .cancelled => []
  | .completed => []

/-- `AUDIT_ACTION_FOR_TRANSITION`. -/
def auditActionForTransition : Status → Option AuditAction
  | .submitted => some .auctionCreated
  | .approved => some .auctionApproved
  | .rejected => some .auctionRejected
  | .live => some .auctionStarted
  | .cancelled => some .auctionCancelled
  | .closed => some .auctionClosed
  | _ => none

def recordTransition (a : AuctionId) (toStatus : Status) (actor : Option UserId) (reason : String) :
    Prog Unit :=
  match auditActionForTransition toStatus with
  | some action => record actor action (.auction a) reason
  | none => pure ()

/-- The transitions that the seller hears about. -/
def notifyTransition (a : AuctionId) (auction : Auction) (toStatus : Status) (reason : String) :
    Prog Unit :=
  match toStatus with
  | .approved => notifyListingApproved a auction
  | .rejected => notifyListingRejected a auction reason
  | .live => notifyAuctionLive a auction
  | _ => pure ()

def transition (a : AuctionId) (toStatus : Status) (actor : Option UserId) (reason : String) :
    Prog Auction := do
  let locked ← lockedAuction a
  let fromStatus := locked.status
  Tx.refuse (toStatus ∉ allowedTransitions fromStatus) (.invalidTransition
    s!"Cannot move auction #{a} from {fromStatus.value} to {toStatus.value}.")
  Tx.refuse (toStatus = .rejected ∧ reason = "") (.invalidTransition
    "A reason is required when rejecting an auction (Section 16).")
  saveAuction a (.withStatus toStatus)
  createStatusLog a ⟨fromStatus, toStatus, actor, reason⟩
  let moved := locked.withStatus toStatus
  recordTransition a toStatus actor reason
  notifyTransition a moved toStatus reason
  pure moved

def submitForReview (a : AuctionId) (actor : UserId) : Prog Auction :=
  transition a .submitted (some actor) ""

/-- The two transitions of `approve`, each in a transaction of its own. -/
def approve (a : AuctionId) (actor : UserId) (reason : String) : Prog Auction :=
  transition a .approved (some actor) reason

def autoSchedule (a : AuctionId) (actor : UserId) : Prog Auction :=
  transition a .scheduled (some actor) "Auto-scheduled after approval"

def reject (a : AuctionId) (actor : UserId) (reason : String) : Prog Auction :=
  transition a .rejected (some actor) reason

def cancel (a : AuctionId) (actor : UserId) (reason : String) : Prog Auction :=
  transition a .cancelled (some actor) reason

/-- The transition of `activate_if_due`, made when its test has succeeded. -/
def activate (a : AuctionId) (actor : Option UserId) : Prog Auction :=
  transition a .live actor "Auto-activated: start_time reached"

end MbararaAuction
