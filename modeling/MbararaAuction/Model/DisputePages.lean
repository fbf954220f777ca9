import Mathlib.Data.List.Dedup
import MbararaAuction.Model.Views

namespace MbararaAuction

/-- `can_view_dispute`. -/
def canViewDispute (s : Database) (viewer : Viewer) (a : AuctionId) (dispute : Dispute) : Bool :=
  match viewer with
  | .nobody | .anonymous => false
  | .user u row =>
    let auction := (s.dossier a).row
    row.isOfficerOrAdmin ||
      [some dispute.raisedBy, some auction.seller, auction.winner].contains (some u)

/-- The rows of `Dispute`, each with the auction that it is about. -/
def allDisputes (s : Database) : List (AuctionId × Dispute) :=
  s.auctionPks.flatMap fun a => (s.dossier a).disputes.map fun dispute => (a, dispute)

/-- The query of `MyDisputesView`, in no particular order. -/
def myDisputes (s : Database) (u : UserId) : List (AuctionId × Dispute) :=
  ((allDisputes s).filter fun x =>
    let auction := (s.dossier x.1).row
    x.2.raisedBy == u || auction.seller == u || auction.winner == some u).dedup

/-- The context of `disputes/detail.html`. -/
structure DisputePage where
  auction : AuctionId
  dispute : Dispute
  payment : Option Payment
  isStaff : Bool
deriving DecidableEq, Repr

/-- `DisputeDetailView.get`. -/
def disputeDetail (s : Database) (viewer : Viewer) (pk : Nat) : Except PageError DisputePage := do
  match (allDisputes s).find? (fun x => x.2.pk = pk) with
  | none => throw (.http404 "No Dispute matches the given query.")
  | some (a, dispute) =>
    if canViewDispute s viewer a dispute = false then
      throw (.raised (.permissionDenied "You do not have access to this dispute."))
    pure
      { auction := a, dispute := dispute, payment := (s.dossier a).payments.head?
        isStaff := viewer.isOfficerOrAdmin }

end MbararaAuction
