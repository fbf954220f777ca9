import MbararaAuction.Model.Bidding

namespace MbararaAuction
open Transactions

/-- `_need_reason`. -/
def needReason (reason : String) : Except PyError String :=
  if strip reason = "" then .error (.schedulingError "A reason is required.") else .ok (strip reason)

/-- `get_status_display().lower()`. -/
def Status.lower (status : Status) : String :=
  String.ofList (status.display.toList.map Char.toLower)

def startNow (a : AuctionId) (actor : UserId) : Prog Auction := do
  let locked ← lockedAuction a
  Tx.refuse (locked.status ≠ .scheduled) (.schedulingError
    s!"Only a scheduled auction can be started (this one is {locked.status.display}).")
  let t ← now
  Tx.refuse (locked.endTime ≤ t)
    (.schedulingError "The end time has already passed. Reschedule the auction first.")
  Tx.when (t < locked.startTime) do
    saveAuction a (.withStart t)
    record (some actor) .auctionRescheduled (.auction a) "Started early by staff"
  transition a .live (some actor) "Started manually by staff"

/-- The statuses in which staff may reschedule or cancel. -/
def schedulable (status : Status) : Bool :=
  status == .scheduled || status == .live || status == .paused

def reschedule (a : AuctionId) (actor : UserId) (reason : String)
    (startTime endTime : Option Time) : Prog Auction := do
  let reason ← Tx.ofExcept (needReason reason)
  let locked ← lockedAuction a
  let t ← now
  Tx.refuse (schedulable locked.status = false)
    (.schedulingError s!"A {locked.status.lower} auction cannot be rescheduled.")
  Tx.refuse (startTime = none ∧ endTime = none)
    (.schedulingError "Enter a new start time or end time.")
  Tx.refuse (startTime ≠ none ∧ locked.status ≠ .scheduled)
    (.schedulingError "The start time can only be changed before the auction starts.")
  let newStart := startTime.getD locked.startTime
  let newEnd := endTime.getD locked.endTime
  Tx.refuse (newEnd ≤ newStart)
    (.schedulingError "The start time must be before the end time.")
  Tx.refuse (newEnd ≤ t) (.schedulingError "The end time must be in the future.")
  Tx.refuse (locked.status = .scheduled ∧ startTime ≠ none ∧ newStart ≤ t) (.schedulingError
    "A scheduled start time must be in the future. Use Start now to open it immediately.")
  Tx.refuse (locked.status = .live ∧ endTime ≠ none ∧ newEnd ≤ locked.endTime)
    (.schedulingError "A live auction can only be extended, not shortened.")
  saveAuction a (.withTimes newStart newEnd)
  record (some actor) .auctionRescheduled (.auction a) reason
  let moved := locked.withTimes newStart newEnd
  notifyAuctionUpdate a moved .auctionRescheduled "Auction rescheduled"
    s!"'{moved.title}' now runs {fmt newStart} to {fmt newEnd}. Reason: {reason}"
  pure moved

def pause (a : AuctionId) (actor : UserId) (reason : String) : Prog Auction := do
  let reason ← Tx.ofExcept (needReason reason)
  let _ ← lockedAuction a
  let paused ← transition a .paused (some actor) reason
  record (some actor) .auctionPaused (.auction a) reason
  notifyAuctionUpdate a paused .auctionPaused "Auction paused"
    s!"Bidding on '{paused.title}' is paused. Reason: {reason}"
  pure paused

def resume (a : AuctionId) (actor : UserId) : Prog Auction := do
  let locked ← lockedAuction a
  Tx.refuse (locked.status ≠ .paused) (.schedulingError
    s!"Only a paused auction can be resumed (this one is {locked.status.display}).")
  let t ← now
  Tx.refuse (locked.endTime ≤ t) (.schedulingError
    "The end time has passed while paused. Set a new end time before resuming.")
  let live ← transition a .live (some actor) "Resumed by staff"
  record (some actor) .auctionResumed (.auction a) ""
  notifyAuctionUpdate a live .auctionResumed "Auction resumed"
    s!"Bidding on '{live.title}' has resumed. It closes {fmt live.endTime}."
  pure live

def cancelAuction (a : AuctionId) (actor : UserId) (reason : String) : Prog Auction := do
  let reason ← Tx.ofExcept (needReason reason)
  let locked ← lockedAuction a
  Tx.refuse (schedulable locked.status = false)
    (.schedulingError s!"A {locked.status.lower} auction cannot be cancelled here.")
  let cancelled ← cancel a actor reason
  notifyAuctionUpdate a cancelled .auctionCancelled "Auction cancelled"
    s!"'{cancelled.title}' was cancelled. Reason: {reason}"
  pure cancelled

def endNow (a : AuctionId) (actor : UserId) (reason : String) : Prog Auction := do
  let reason ← Tx.ofExcept (needReason reason)
  let locked ← lockedAuction a
  Tx.refuse (locked.status ≠ .live) (.schedulingError
    s!"Only a live auction can be ended (this one is {locked.status.display}).")
  closeAuction a (some actor) s!"Ended early by staff: {reason}"

end MbararaAuction
