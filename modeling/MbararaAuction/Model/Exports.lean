import MbararaAuction.Formats.Csv
import MbararaAuction.Model.Reports
import MbararaAuction.Model.Website

namespace MbararaAuction
open Calendars Queries Formats

section Texts

/-- A number with at least so many digits. -/
def zeroPadded (width n : Nat) : String :=
  String.ofList (List.replicate (width - (toString n).length) '0') ++ toString n

/-- `date.isoformat`. -/
def Date.isoformat (d : Date) : String :=
  zeroPadded 4 d.year.toNat ++ "-" ++ zeroPadded 2 d.month ++ "-" ++ zeroPadded 2 d.day

/-- `datetime.isoformat` of a column, which the database returns in UTC. -/
def isoformat (t : Time) : String :=
  let seconds := t / 1000000
  let second := (seconds % 86400).toNat
  let microsecond := (t % 1000000).toNat
  (dateOfDays (seconds / 86400)).isoformat ++ "T" ++ zeroPadded 2 (second / 3600) ++ ":" ++
    zeroPadded 2 (second / 60 % 60) ++ ":" ++ zeroPadded 2 (second % 60) ++
    (if microsecond = 0 then "" else "." ++ zeroPadded 6 microsecond) ++ "+00:00"

/-- `str` of a truth value. -/
def boolStr (b : Bool) : String := if b then "True" else "False"

/-- The characters with which a spreadsheet program begins a formula. -/
def formulaStarts : List Char := ['=', '+', '-', '@', '\t', '\r']

/-- `csv_safe`, on the `str` of a value that is there. -/
def csvSafe (value : Option String) : String :=
  let text := value.getD ""
  if text.toList.head?.any formulaStarts.contains then "'" ++ text else text

end Texts

/-- The dialect of `csv.writer`. -/
def excel : Dialect where
  delimiter := ','
  quote := '"'
  distinct := by decide
  delimiterInside := by decide
  quoteInside := by decide

/-- `writerow`, for every row. -/
def writeRows (rows : List (List String)) : String :=
  String.ofList (excel.write (rows.map fun row => row.map String.toList))

section Auctions
variable (tables : ReportTables)

/-- `a.winner.username if a.winner else ""`. -/
def winnerName (row : Auction) : String :=
  match row.winner with
  | some u => (tables.users u).username
  | none => ""

/-- `bid_total`. -/
def bidTotal (a : AuctionId) : Nat := (accepted (tables.dossier a).bids).length

def auctionHeader : List String :=
  ["id", "title", "seller", "category", "status", "starting_price", "reserve_price",
    "final_price", "winner", "reserve_met", "bids", "start_time", "end_time"]

/-- The values of a row. -/
def auctionValues (a : AuctionId) : List (Option String) :=
  let row := tables.row a
  [some (toString a), some row.title, some (tables.users row.seller).username,
    some (tables.categoryName row.category), some row.status.value, some (moneyStr row.startingPrice),
    row.reservePrice.map moneyStr, row.finalPrice.map moneyStr, some (winnerName tables row),
    row.reserveMet.map boolStr, some (toString (bidTotal tables a)), some (isoformat row.startTime),
    some (isoformat row.endTime)]

/-- `write_auctions_csv`. -/
def writeAuctionsCsv (auctions : List AuctionId) : String :=
  let rows := auctions.mergeSort fun a b => a ≤ b
  writeRows (auctionHeader :: rows.map fun a => (auctionValues tables a).map csvSafe)

end Auctions

section Payments
variable (tables : ReportTables)

def paymentHeader : List String :=
  ["id", "auction_id", "auction_title", "buyer", "seller", "amount", "status", "method", "reference",
    "paid_at"]

def paymentValues (x : AuctionId × Payment) : List (Option String) :=
  let row := tables.row x.1
  [some (toString x.2.pk), some (toString x.1), some row.title, some (winnerName tables row),
    some (tables.users row.seller).username, some (moneyStr x.2.amount), some x.2.status.value,
    some x.2.method, some x.2.reference, some ((x.2.paidAt.map isoformat).getD "")]

/-- `write_payments_csv`. -/
def writePaymentsCsv (payments : List (AuctionId × Payment)) : String :=
  let rows := payments.mergeSort fun x y => x.2.pk ≤ y.2.pk
  writeRows (paymentHeader :: rows.map fun x => (paymentValues tables x).map csvSafe)

end Payments

section Pages
variable (server : ReportServer) (tables : ReportTables) (session : Option UserId)

/-- `StaffOrOfficerRequiredMixin` above a page: nobody else gets it. -/
def staffPage {α : Type} (get : Except ReportError α) : Except ReportError (Option α) :=
  match requestUser tables.toDatabase session with
  | some (_, user) => if user.isOfficerOrAdmin then some <$> get else pure none
  | none => pure none

/-- What the dashboard shows: the figures, the messages, and the dates in its form. -/
structure Dashboard where
  summary : Summary
  messages : List String
  fromValue : String
  toValue : String
deriving DecidableEq, Repr

/-- `ReportsDashboardView.get`. -/
def reportsDashboardView (rawFrom rawTo : String) : Except ReportError (Option Dashboard) :=
  staffPage tables session do
    let (dateFrom, dateTo, ok) := getRange rawFrom rawTo
    let summary ← buildSummary server tables dateFrom dateTo
    pure ⟨summary,
      if ok then [] else ["Enter valid dates (YYYY-MM-DD), with the start before the end."],
      (dateFrom.map Date.isoformat).getD "", (dateTo.map Date.isoformat).getD ""⟩

/-- `AuctionsCsvView.get`. -/
def auctionsCsvView (rawFrom rawTo : String) : Except ReportError (Option String) :=
  staffPage tables session do
    let (dateFrom, dateTo, _) := getRange rawFrom rawTo
    let auctions ← auctionsInRange server tables dateFrom dateTo
    pure (writeAuctionsCsv tables auctions)

/-- `PaymentsCsvView.get`. -/
def paymentsCsvView (rawFrom rawTo : String) : Except ReportError (Option String) :=
  staffPage tables session do
    let (dateFrom, dateTo, _) := getRange rawFrom rawTo
    let payments ← paymentsInRange server tables dateFrom dateTo
    pure (writePaymentsCsv tables payments)

end Pages

end MbararaAuction
