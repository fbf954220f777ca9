import MbararaAuction.Model.Disputes

namespace MbararaAuction

/-- A character of a Python string: any code point, surrogates included. -/
abbrev PyChar := Fin 0x110000

abbrev PyString := List PyChar

theorem pyChar_lt (c : Char) : c.toNat < 0x110000 := by
  have hvalid := c.valid
  simp only [UInt32.isValidChar, Nat.isValidChar] at hvalid
  simp only [Char.toNat]
  omega

def pyChar (c : Char) : PyChar := ⟨c.toNat, pyChar_lt c⟩

def pyString (s : String) : PyString := s.toList.map pyChar

/-- `chr`. -/
def chr (n : Nat) : Except PyError PyChar :=
  if h : n < 0x110000 then .ok ⟨n, h⟩ else .error (.valueError "chr() arg not in range(0x110000)")

/-- The `viewer` of a page: `request.user`, or nobody at all. -/
inductive Viewer where
  | nobody
  | anonymous
  | user (pk : UserId) (row : User)

/-- The key of a viewer who is logged in. -/
def Viewer.pk : Viewer → Option UserId
  | user pk _ => some pk
  | nobody | anonymous => none

def Viewer.isOfficerOrAdmin : Viewer → Bool
  | user _ row => row.isOfficerOrAdmin
  | nobody | anonymous => false

/-- An entry of the bid history. -/
structure BidEntry where
  sequenceNo : Nat
  amount : Money
  createdAt : Time
  label : PyString
  status : BidStatus
  isMine : Bool
deriving DecidableEq, Repr

/-- The dictionary of the labels given so far, in order of insertion. -/
abbrev Labels := List (UserId × PyString)

/-- `labels[user_id]`, after a new label where there was none. -/
def labelFor (labels : Labels) (u : UserId) : Except PyError (Labels × PyString) :=
  match labels.lookup u with
  | some label => .ok (labels, label)
  | none => do
    let letter ← chr ('A'.toNat + labels.length)
    let label := pyString "Bidder " ++ [letter]
    pure (labels ++ [(u, label)], label)

/-- The loop of `get_bid_history`. -/
def historyLoop (users : UserId → User) (viewer : Viewer) :
    List Bid → Labels → List BidEntry → Except PyError (List BidEntry)
  | [], _, history => .ok history
  | bid :: rest, labels, history => do
    let (labels, anonymized) ← labelFor labels bid.bidder
    let isMine : Bool := viewer.pk = some bid.bidder
    let label :=
      if viewer.isOfficerOrAdmin then pyString (users bid.bidder).username
      else if isMine then pyString "You"
      else anonymized
    historyLoop users viewer rest labels (history ++
      [{ sequenceNo := bid.sequenceNo, amount := bid.amount, createdAt := bid.createdAt,
         label := label, status := bid.status, isMine := isMine }])

def getBidHistory (s : Database) (a : AuctionId) (viewer : Viewer) :
    Except PyError (List BidEntry) :=
  historyLoop s.users viewer (inSequence (s.dossier a).bids) [] []

/-- `PUBLICLY_VISIBLE_STATUSES`. -/
def publiclyVisible (status : Status) : Bool :=
  status == .scheduled || status == .live || status == .paused || status == .closed ||
    status == .settled || status == .completed

/-- `Auction.display_price`: a bid of nothing does not count. -/
def Auction.displayPrice (row : Auction) : Money :=
  match row.currentHighestBid with
  | some highest => if highest = 0 then row.startingPrice else highest
  | none => row.startingPrice

/-- `seconds_until_start` and `seconds_until_end`: the whole seconds from `now` to `t`. The float
that the source truncates is exact up to about 2^33 seconds. -/
def secondsUntil (t now : Time) : Int := max 0 ((t - now).tdiv 1000000)

/-- `can_raise_dispute`. -/
def canRaiseDispute (s : Database) (viewer : Viewer) (a : AuctionId) : Bool :=
  let d := s.dossier a
  match viewer.pk with
  | none => false
  | some u => disputable d.row.status && !d.disputes.any Dispute.isActive &&
      decide (u ∈ auctionParticipants d.row d.bids)

/-- `is_owner`: the viewer has the seller profile behind the auction. -/
def isOwner (s : Database) (viewer : Viewer) (row : Auction) : Bool :=
  match viewer.pk with
  | none => false
  | some u => (s.sellerProfiles u).isSome && u == row.seller

/-- `can_bid`: a bidder without a profile makes the page fail once bids are open. -/
def canBid (s : Database) (viewer : Viewer) (row : Auction) : Except PyError Bool :=
  match viewer with
  | .nobody | .anonymous => .ok false
  | .user u user =>
    if user.role = .bidder ∧ row.isBiddable s.clock = true then
      match s.bidderProfiles u with
      | none => .error .doesNotExist
      | some profile => .ok (profile.isEligibleToBid user.isActive && u != row.seller)
    else .ok false

/-- What the template of the detail page reads. -/
structure Page where
  pk : AuctionId
  title : String
  description : String
  location : String
  category : Nat
  sellerName : String
  sellerPk : UserId
  status : Status
  startTime : Time
  endTime : Time
  secondsUntilStart : Int
  secondsUntilEnd : Int
  currentHighestBid : Option Money
  displayPrice : Money
  startingPrice : Money
  minIncrement : Money
  winnerName : Option String
  finalPrice : Option Money
  serverTime : Time
  isOwner : Bool
  bidHistory : List BidEntry
  minimumPermitted : Money
  canBid : Bool
  canDispute : Bool
deriving DecidableEq, Repr

/-- How a page fails. -/
inductive PageError where
  | http404 (message : String)
  | raised (e : PyError)
deriving DecidableEq, Repr

/-- The view `detail`, with the template it renders. -/
def detail (s : Database) (viewer : Viewer) (a : AuctionId) : Except PageError Page := do
  if a ∉ s.auctionPks then throw (.http404 "No Auction matches the given query.")
  let auction := (s.dossier a).row
  let isOwner := isOwner s viewer auction
  if publiclyVisible auction.status = false ∧ ¬ (isOwner || viewer.isOfficerOrAdmin) then
    throw (.http404 "Auction not found.")
  let canBid ← (canBid s viewer auction).mapError .raised
  let bidHistory ← (getBidHistory s a viewer).mapError .raised
  pure
    { pk := a, title := auction.title, description := auction.description
      location := auction.location, category := auction.category
      sellerName := (s.users auction.seller).username, sellerPk := auction.seller
      status := auction.status, startTime := auction.startTime, endTime := auction.endTime
      secondsUntilStart := secondsUntil auction.startTime s.clock
      secondsUntilEnd := secondsUntil auction.endTime s.clock
      currentHighestBid := auction.currentHighestBid, displayPrice := auction.displayPrice
      startingPrice := auction.startingPrice, minIncrement := auction.minIncrement
      winnerName := auction.winner.map fun u => (s.users u).username
      finalPrice := auction.finalPrice, serverTime := s.clock, isOwner := isOwner
      bidHistory := bidHistory, minimumPermitted := minimumPermitted auction
      canBid := canBid, canDispute := canRaiseDispute s viewer a }

end MbararaAuction
