import MbararaAuction.Decimals.Rounding
import MbararaAuction.Queries.Grouped
import MbararaAuction.Model.Ranges

namespace MbararaAuction
open Calendars Queries Decimals

/-- The exceptions that may leave the reports. -/
inductive ReportError where
  | overflowError (message : String)
  | invalidOperation
deriving DecidableEq, Repr

section Bind
variable {α β : Type} {x : Except ReportError α} {f : α → Except ReportError β} {y : β}

theorem report_ok_bind (a : α) : (Except.ok a >>= f) = f a := rfl

theorem report_bind_eq_ok (h : (x >>= f) = .ok y) : ∃ a, x = .ok a ∧ f a = .ok y := by
  cases x with
  | error e => cases h
  | ok a => exact ⟨a, rfl, h⟩

end Bind

/-- What the reports rest on: the zone that `TIME_ZONE` names, the instants that the
database driver can send, and the order in which the database sorts texts. -/
structure ReportServer where
  zone : Zone
  encodable : Time → Bool
  textLe : String → String → Bool

/-- The tables, with the columns that only the reports read. A final price is within
its `numeric(14, 2)` column. -/
structure ReportTables extends Database where
  categoryName : Nat → String
  auctionCreatedAt : AuctionId → Time
  paymentCreatedAt : AuctionId → Nat → Time
  disputeCreatedAt : AuctionId → Nat → Time
  pricesFit : ∀ a ∈ auctionPks, ∀ m, (dossier a).row.finalPrice = some m → m.natAbs < 10 ^ 14

namespace ReportTables

/-- All rows of a table whose foreign key names an auction. -/
def rows {α : Type} (tables : ReportTables) (table : Dossier → List α) : List (AuctionId × α) :=
  tables.auctionPks.flatMap fun a => (table (tables.dossier a)).map fun x => (a, x)

def row (tables : ReportTables) (a : AuctionId) : Auction := (tables.dossier a).row

def acceptedBids (tables : ReportTables) : List (AuctionId × Bid) :=
  (tables.rows Dossier.bids).filter fun x => x.2.status = .accepted

end ReportTables

section Ranges

/-- `date_to + timedelta(days=1)`. -/
def nextDay (d : Date) : Except ReportError Date :=
  let next := dateOfDays (daysOf d + 1)
  if next.year ≤ 9999 then .ok next else .error (.overflowError "date value out of range")

/-- `make_aware(datetime.combine(d, time.min), tz)`. -/
def midnight (z : Zone) (d : Date) : Time := z.start (daysOf d)

/-- `_bounds`. -/
def bounds (z : Zone) (dateFrom dateTo : Option Date) :
    Except ReportError (Option Time × Option Time) := do
  let start := dateFrom.map (midnight z)
  match dateTo with
  | none => pure (start, none)
  | some d => do
    let next ← nextDay d
    pure (start, some (midnight z next))

/-- A filter with an instant for a parameter, which the driver has to send. -/
def filterAt {α : Type} (server : ReportServer) (p : Time → α → Bool) (t : Option Time)
    (rows : List α) : Except ReportError (List α) :=
  match t with
  | none => .ok rows
  | some t =>
    if server.encodable t then .ok (rows.filter (p t))
    else .error (.overflowError "date value out of range")

/-- `_in_range`, and the query: the rows are those that it selects. -/
def inRange {α : Type} (server : ReportServer) (createdAt : α → Time) (rows : List α)
    (range : Option Time × Option Time) : Except ReportError (List α) := do
  let rows ← filterAt server (fun start x => start ≤ createdAt x) range.1 rows
  filterAt server (fun finish x => createdAt x < finish) range.2 rows

def auctionsInRange (server : ReportServer) (tables : ReportTables)
    (dateFrom dateTo : Option Date) : Except ReportError (List AuctionId) := do
  let range ← bounds server.zone dateFrom dateTo
  inRange server tables.auctionCreatedAt tables.auctionPks range

def paymentsInRange (server : ReportServer) (tables : ReportTables)
    (dateFrom dateTo : Option Date) : Except ReportError (List (AuctionId × Payment)) := do
  let range ← bounds server.zone dateFrom dateTo
  inRange server (fun x => tables.paymentCreatedAt x.1 x.2.pk) (tables.rows Dossier.payments) range

end Ranges

section Figures

/-- `Auction.Status.choices`. -/
def Status.choices : List Status :=
  [.draft, .submitted, .approved, .rejected, .scheduled, .live, .paused, .closed, .settled,
    .completed, .cancelled, .disputed]

/-- `FINISHED_STATUSES`. -/
def finishedStatuses : List Status := [.closed, .settled, .completed, .disputed]

/-- `Payment.Status.choices`. -/
def PaymentStatus.choices : List PaymentStatus := [.pending, .paid, .failed, .refunded]

/-- `get_status_display`. -/
def PaymentStatus.display : PaymentStatus → String
  | pending => "Pending"
  | paid => "Paid"
  | failed => "Failed"
  | refunded => "Refunded"

def Auction.finished (row : Auction) : Bool := finishedStatuses.contains row.status

/-- The auction is finished and has a winner. -/
def Auction.sold (row : Auction) : Bool := row.finished && row.winner.isSome

/-- A row of `payment_rows`. -/
structure PaymentRow where
  label : String
  count : Nat
  amount : Money
deriving DecidableEq, Repr

/-- A row of `category_rows`. -/
structure CategoryRow where
  name : String
  total : Nat
  sold : Nat
  value : Money
deriving DecidableEq, Repr

/-- The rows of which `build_summary` gives figures. -/
structure Selection where
  auctions : List AuctionId
  bids : List (AuctionId × Bid)
  payments : List (AuctionId × Payment)
  disputes : List (AuctionId × Dispute)
deriving DecidableEq, Repr

/-- What `build_summary` returns. -/
structure Summary where
  totalAuctions : Nat
  statusRows : List (String × Nat)
  finishedCount : Nat
  soldCount : Nat
  unsoldCount : Int
  sellThrough : Option ℚ
  salesValue : Money
  averageSale : Option Money
  bidCount : Nat
  avgBids : Option ℚ
  paymentRows : List PaymentRow
  collected : Money
  outstanding : Money
  categoryRows : List CategoryRow
  disputesTotal : Nat
  disputesActive : Nat
  verifiedSellers : Nat
  verifiedBidders : Nat
  pendingVerifications : Nat
deriving DecidableEq, Repr

/-- `round(m / n, 1)`: the quotient and the rounded number are binary64. -/
def ratio (m n : Nat) : Option ℚ :=
  if n = 0 then none
  else some (significant 2 53 (toUnit (1 / 10) (significant 2 53 (m / n))))

/-- `(sales_value / sold_count).quantize(Decimal("0.01"))`, in a context of 28 digits. -/
def average (salesValue : Money) (soldCount : Nat) : Except ReportError (Option Money) :=
  if soldCount = 0 then .ok none
  else
    let quotient := significant 10 28 (salesValue / 100 / soldCount)
    let quantized := nearest (quotient * 100)
    if quantized.natAbs < 10 ^ 28 then .ok (some quantized) else .error .invalidOperation

section Rows
variable (server : ReportServer) (tables : ReportTables)

/-- `aggregate(t=Sum("final_price"))["t"] or Decimal("0")`. -/
def priceSum (auctions : List AuctionId) : Money :=
  (sumOf (auctions.map fun a => (tables.row a).finalPrice)).getD 0

/-- `aggregate(t=Sum("amount"))["t"] or Decimal("0")`. -/
def amountSum (payments : List (AuctionId × Payment)) : Money :=
  (sumOf (payments.map fun x => some x.2.amount)).getD 0

def statusRows (auctions : List AuctionId) : List (String × Nat) :=
  let byStatus := groups (fun a => (tables.row a).status) auctions
  Status.choices.filterMap fun status =>
    let n := ((byStatus.lookup status).map List.length).getD 0
    if n = 0 then none else some (status.display, n)

def paymentRows (payments : List (AuctionId × Payment)) : List PaymentRow :=
  PaymentStatus.choices.map fun status =>
    let rows := payments.filter fun x => x.2.status = status
    { label := status.display, count := rows.length, amount := amountSum rows }

def categoryRow (name : String) (auctions : List AuctionId) : CategoryRow :=
  let sold := auctions.filter fun a => (tables.row a).sold
  { name := name, total := auctions.length, sold := sold.length, value := priceSum tables sold }

def categoryRows (auctions : List AuctionId) : List CategoryRow :=
  let byCategory := groups (fun a => tables.categoryName (tables.row a).category) auctions
  (byCategory.map fun g => categoryRow tables g.1 g.2).mergeSort fun x y =>
    decide (y.total < x.total) || (x.total == y.total && server.textLe x.name y.name)

/-- `build_summary`, once the rows are selected. -/
def figures (x : Selection) : Except ReportError Summary := do
  let finished := x.auctions.filter fun a => (tables.row a).finished
  let sold := finished.filter fun a => (tables.row a).winner.isSome
  let salesValue := priceSum tables sold
  let sellers := tables.userPks.filterMap tables.sellerProfiles
  let bidders := tables.userPks.filterMap tables.bidderProfiles
  let averageSale ← average salesValue sold.length
  pure
    { totalAuctions := x.auctions.length
      statusRows := statusRows tables x.auctions
      finishedCount := finished.length
      soldCount := sold.length
      unsoldCount := finished.length - sold.length
      sellThrough := ratio (100 * sold.length) finished.length
      salesValue := salesValue
      averageSale := averageSale
      bidCount := x.bids.length
      avgBids := ratio x.bids.length (x.bids.map Prod.fst).dedup.length
      paymentRows := paymentRows x.payments
      collected := amountSum (x.payments.filter fun y => y.2.status = .paid)
      outstanding := amountSum (x.payments.filter fun y => y.2.status = .pending)
      categoryRows := categoryRows server tables x.auctions
      disputesTotal := x.disputes.length
      disputesActive := (x.disputes.filter fun y => y.2.isActive).length
      verifiedSellers := (sellers.filter fun p => p.verificationStatus = .verified).length
      verifiedBidders := (bidders.filter fun p => p.verificationStatus = .verified).length
      pendingVerifications :=
        (sellers.filter fun p => p.verificationStatus = .pending).length +
          (bidders.filter fun p => p.verificationStatus = .pending).length }

def buildSummary (dateFrom dateTo : Option Date) : Except ReportError Summary := do
  let range ← bounds server.zone dateFrom dateTo
  let auctions ← auctionsInRange server tables dateFrom dateTo
  let bids ← inRange server (fun x => x.2.createdAt) tables.acceptedBids range
  let payments ← paymentsInRange server tables dateFrom dateTo
  let disputes ← inRange server (fun x => tables.disputeCreatedAt x.1 x.2.pk)
    (tables.rows Dossier.disputes) range
  figures server tables ⟨auctions, bids, payments, disputes⟩

end Rows

end Figures

end MbararaAuction
