import Mathlib.Tactic.Simps.Basic
import MbararaAuction.Queries.Keyed
import MbararaAuction.Queries.Ranked
import MbararaAuction.Transactions.Exec
import MbararaAuction.Model.Tables

namespace MbararaAuction
open Transactions Queries

/-- Everything the tables hold about one auction: its row, and the rows of the
other tables whose foreign key names it, in order of insertion. -/
structure Dossier where
  row : Auction
  bids : List Bid
  logs : List StatusLog
  payments : List Payment
  disputes : List Dispute
deriving DecidableEq, Repr

namespace Dossier

/-- An update of the auction row. -/
@[simps] def onRow (f : Auction → Auction) (d : Dossier) : Dossier := { d with row := f d.row }

@[simps] def addLog (log : StatusLog) (d : Dossier) : Dossier := { d with logs := d.logs ++ [log] }

@[simps] def addBid (bid : Bid) (d : Dossier) : Dossier := { d with bids := d.bids ++ [bid] }

@[simps] def addPayment (payment : Payment) (d : Dossier) : Dossier :=
  { d with payments := d.payments ++ [payment] }

@[simps] def addDispute (dispute : Dispute) (d : Dossier) : Dossier :=
  { d with disputes := d.disputes ++ [dispute] }

/-- An update of the bid with the key `pk`. -/
@[simps] def onBid (pk : Nat) (f : Bid → Bid) (d : Dossier) : Dossier :=
  { d with bids := updateKey Bid.pk pk f d.bids }

/-- An update of the payment with the key `pk`. -/
@[simps] def onPayment (pk : Nat) (f : Payment → Payment) (d : Dossier) : Dossier :=
  { d with payments := updateKey Payment.pk pk f d.payments }

/-- An update of the dispute with the key `pk`. -/
@[simps] def onDispute (pk : Nat) (f : Dispute → Dispute) (d : Dossier) : Dossier :=
  { d with disputes := updateKey Dispute.pk pk f d.disputes }

end Dossier

/-- The committed rows, and the time on the server's clock. -/
structure Database where
  auctionPks : List AuctionId
  dossier : AuctionId → Dossier
  audit : List AuditLog
  notifications : List Notification
  userPks : List UserId
  users : UserId → User
  sellerProfiles : UserId → Option SellerProfile
  bidderProfiles : UserId → Option BidderProfile
  clock : Time

/-- The rows that `SELECT ... FOR UPDATE` and `UPDATE` lock. -/
inductive RowKey where
  | auction (a : AuctionId)
  | bid (a : AuctionId) (pk : Nat)
  | payment (a : AuctionId) (pk : Nat)
  | dispute (a : AuctionId) (pk : Nat)
  | profile (p : ProfileRef)
deriving DecidableEq

/-- The exceptions that leave the services. `SchedulingError` is a `ValueError`,
`InvalidTransition` a `ValidationError`. -/
inductive PyError where
  | bidRejected (message : String)
  | valueError (message : String)
  | schedulingError (message : String)
  | permissionError (message : String)
  | permissionDenied (message : String)
  | invalidTransition (message : String)
  | validationError (message : String)
  | integrityError (constraint : String)
  | dataError
  | doesNotExist
  | operationalError
deriving DecidableEq, Repr

def PyError.isValueError : PyError → Bool
  | valueError _ | schedulingError _ => true
  | _ => false

def PyError.isValidationError : PyError → Bool
  | invalidTransition _ | validationError _ => true
  | _ => false

def PyError.isInvalidTransition : PyError → Bool
  | invalidTransition _ => true
  | _ => false

def PyError.isIntegrityError : PyError → Bool
  | integrityError _ => true
  | _ => false

/-- A transaction body over the auction tables. Messages are the primary keys
handed to `deliver_notification.delay`. -/
abbrev Prog := Tx Database RowKey PyError Nat

/-- Changes what the tables hold about one auction. -/
def Database.amend (s : Database) (a : AuctionId) (f : Dossier → Dossier) : Database :=
  { s with dossier := fun b => if b = a then f (s.dossier a) else s.dossier b }

section Amend
variable (s : Database) (a : AuctionId) (f : Dossier → Dossier)

@[simp] theorem amend_self : (s.amend a f).dossier a = f (s.dossier a) := by
  simp [Database.amend]

@[simp] theorem amend_other {b : AuctionId} (h : b ≠ a) :
    (s.amend a f).dossier b = s.dossier b := by
  simp [Database.amend, h]

end Amend

/-- `Auction.objects.select_for_update().get(pk=a)`. -/
def lockedAuction (a : AuctionId) : Prog Auction := do
  Tx.acquire (.auction a)
  Tx.query (fun s => (s.dossier a).row)

/-- `auction.save(update_fields=...)`: an update of the columns that `f` sets. -/
def saveAuction (a : AuctionId) (f : Auction → Auction) : Prog Unit := do
  Tx.acquire (.auction a)
  Tx.update (fun s => s.amend a (.onRow f))

/-- `AuctionStatusLog.objects.create`. -/
def createStatusLog (a : AuctionId) (log : StatusLog) : Prog Unit :=
  Tx.update (fun s => s.amend a (.addLog log))

/-- The key of a new row. All tables draw from one sequence, and the constraint
on the primary key refuses a value in use. -/
def nextPk (a : AuctionId) (pks : Dossier → List Nat) : Prog Nat := do
  let pk ← Tx.draw
  let used ← Tx.query (fun s => pks (s.dossier a))
  Tx.refuse (pk ∈ used) (.integrityError "pkey")
  pure pk

/-- `timezone.now()`. -/
def now : Prog Time := Tx.glance (fun s => s.clock)

/-- `Bid.objects.create`, with the constraints of the table. -/
def createBid (a : AuctionId) (bidder : UserId) (amount : Money) (sequenceNo : Nat) : Prog Bid := do
  let pk ← nextPk a (fun d => d.bids.map Bid.pk)
  let t ← now
  let taken ← Tx.query (fun s => (s.dossier a).bids.map Bid.sequenceNo)
  Tx.refuse (sequenceNo ∈ taken) (.integrityError "unique_sequence_per_auction")
  Tx.refuse (amount ≤ 0) (.integrityError "bid_amount_positive")
  let bid : Bid :=
    { pk := pk, bidder := bidder, amount := amount, sequenceNo := sequenceNo, status := .accepted,
      invalidatedReason := "", invalidatedBy := none, invalidatedAt := none, createdAt := t }
  Tx.update (fun s => s.amend a (.addBid bid))
  pure bid

/-- `bid.save(update_fields=...)`. -/
def saveBid (a : AuctionId) (pk : Nat) (f : Bid → Bid) : Prog Unit := do
  Tx.acquire (.bid a pk)
  Tx.update (fun s => s.amend a (.onBid pk f))

/-- A payment as it is created. -/
def Payment.due (pk : Nat) (amount : Money) : Payment :=
  { pk := pk, amount := amount, status := .pending, method := "", reference := "", notes := "",
    recordedBy := none, paidAt := none }

/-- `Payment.objects.create`: one row per auction. -/
def createPayment (a : AuctionId) (amount : Money) : Prog Payment := do
  let pk ← nextPk a (fun d => d.payments.map Payment.pk)
  let taken ← Tx.query (fun s => (s.dossier a).payments.map Payment.pk)
  Tx.refuse (taken ≠ []) (.integrityError "payments_payment_auction_id_key")
  let payment := Payment.due pk amount
  Tx.update (fun s => s.amend a (.addPayment payment))
  pure payment

/-- `payment.save(update_fields=...)`. -/
def savePayment (a : AuctionId) (pk : Nat) (f : Payment → Payment) : Prog Unit := do
  Tx.acquire (.payment a pk)
  Tx.update (fun s => s.amend a (.onPayment pk f))

/-- The part of `Dispute.objects.create` that cannot fail: a new row, which its
transaction holds locked. -/
def insertDispute (a : AuctionId) (dispute : Dispute) : Prog Unit := do
  Tx.acquire (.dispute a dispute.pk)
  Tx.update (fun s => s.amend a (.addDispute dispute))

/-- `Dispute.objects.select_for_update().get(pk=pk)`. -/
def lockedDispute (a : AuctionId) (pk : Nat) : Prog Dispute := do
  Tx.acquire (.dispute a pk)
  let found ← Tx.query (fun s => (s.dossier a).disputes.find? (fun x => x.pk = pk))
  Tx.require found .doesNotExist

/-- `dispute.save(update_fields=...)`. -/
def saveDispute (a : AuctionId) (pk : Nat) (f : Dispute → Dispute) : Prog Unit := do
  Tx.acquire (.dispute a pk)
  Tx.update (fun s => s.amend a (.onDispute pk f))

/-- `AuditLog.record`. -/
def record (actor : Option UserId) (action : AuditAction) (obj : ObjRef) (reason : String) :
    Prog Unit :=
  Tx.update (fun s => { s with audit := s.audit ++ [⟨actor, action, obj, reason⟩] })

end MbararaAuction
