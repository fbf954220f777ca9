import Mathlib.Algebra.Order.Ring.Nat
import MbararaAuction.Model.Website

namespace MbararaAuction

/-- A page for staff, of the rows as they are when it is asked for. -/
def staffOnly {α : Type} (s : Database) (session : Option UserId) (page : Except PageError α) :
    Except PageError α :=
  match requestUser s session with
  | none => .error (.raised (.permissionDenied ""))
  | some (_, user) =>
    if user.isOfficerOrAdmin then page else .error (.raised (.permissionDenied ""))

/-- A row of `_with_bid_counts`. -/
structure CountedAuction where
  pk : AuctionId
  auction : Auction
  bidTotal : Nat
deriving DecidableEq, Repr

def withBidCounts (s : Database) (auctions : List LoadedAuction) : List CountedAuction :=
  auctions.map fun x => ⟨x.pk, x.row, (accepted (s.dossier x.pk).bids).length⟩

/-- `order_by` of a column, ties in the order of the table. -/
def orderBy (column : Auction → Time) (rows : List CountedAuction) : List CountedAuction :=
  rows.insertionSort fun x y => column x.auction ≤ column y.auction

/-- The auctions of one status with their bid counts, in the order of a column. -/
def dashboardTable (s : Database) (status : Status) (column : Auction → Time) :
    List CountedAuction :=
  orderBy column (withBidCounts s (auctionsWhere s fun row => row.status == status))

/-- The context of `control/dashboard.html`. -/
structure ControlDashboard where
  scheduled : List CountedAuction
  live : List CountedAuction
  paused : List CountedAuction
  overdueStart : Nat
  overdueClose : Nat
  endingSoon : Nat
  totalBids : Nat
deriving DecidableEq, Repr

def oneHour : Time := 3600000000

/-- `ControlDashboardView.get`. -/
def controlDashboard (s : Database) : ControlDashboard :=
  let t := s.clock
  let scheduled := dashboardTable s .scheduled Auction.startTime
  let live := dashboardTable s .live Auction.endTime
  { scheduled := scheduled, live := live, paused := dashboardTable s .paused Auction.endTime
    overdueStart := scheduled.countP fun x => x.auction.startTime ≤ t
    overdueClose := live.countP fun x => x.auction.endTime ≤ t
    endingSoon := live.countP fun x => x.auction.endTime ≤ t + oneHour && t < x.auction.endTime
    totalBids := (live.map CountedAuction.bidTotal).sum }

def controlDashboardView (s : Database) (session : Option UserId) :
    Except PageError ControlDashboard :=
  staffOnly s session (.ok (controlDashboard s))

/-- The context of `control/auction.html`. -/
structure AuctionControl extends ControlPage where
  auction : CountedAuction
  history : List StatusLog
  canStart : Bool
  canPause : Bool
  canResume : Bool
  canEnd : Bool
  canCancel : Bool

/-- What `AuctionControlView` shows of an auction: the history is its last fifteen changes. -/
def auctionControl (s : Database) (a : AuctionId) : AuctionControl :=
  let d := s.dossier a
  { controlPage d.row with
    auction := ⟨a, d.row, (accepted d.bids).length⟩
    history := d.logs.reverse.take 15
    canStart := d.row.status == .scheduled
    canPause := d.row.status == .live
    canResume := d.row.status == .paused
    canEnd := d.row.status == .live
    canCancel := d.row.status == .scheduled || d.row.status == .live || d.row.status == .paused }

/-- `AuctionControlView.get`. -/
def auctionControlView (s : Database) (session : Option UserId) (a : AuctionId) :
    Except PageError AuctionControl :=
  staffOnly s session <|
    if a ∈ s.auctionPks then .ok (auctionControl s a)
    else .error (.http404 "No Auction matches the given query.")

/-- What staff do with the forms of `control/auction.html`. -/
inductive ControlAction where
  | start
  | pause (reason : String)
  | resume
  | endNow (reason : String)
  | cancel (reason : String)
  | reschedule (post : ReschedulePost)

/-- Where the form posts to. -/
def ControlAction.post (a : AuctionId) : ControlAction → Post
  | start => .startNow a
  | pause reason => .pause a reason
  | resume => .resume a
  | endNow reason => .endNow a reason
  | cancel reason => .cancel a reason
  | reschedule post => .reschedule a post

/-- The template shows the form. -/
def ControlAction.shown (page : AuctionControl) : ControlAction → Bool
  | start => page.canStart
  | pause _ => page.canPause
  | resume => page.canResume
  | endNow _ => page.canEnd
  | cancel _ => page.canCancel
  | reschedule _ => page.canReschedule

/-- `success` of the view. -/
def ControlAction.success : ControlAction → String
  | start => "Auction is now live."
  | pause _ => "Auction paused."
  | resume => "Auction resumed."
  | endNow _ => "Auction closed and the winner (if any) has been determined."
  | cancel _ => "Auction cancelled."
  | reschedule _ => "Schedule updated. The seller and bidders have been notified."

end MbararaAuction
