import MbararaAuction.Machine.BidBook
import MbararaAuction.Proofs.Histories

namespace MbararaAuction
open Transactions

seal Tx.Exec

section Runs
variable {db : Database} {before : List (Site × SiteEvent)} {c : Site} {a : AuctionId}

theorem run_bidBook (hrun : SiteRun db before c) (hfresh : Fresh (db.dossier a)) :
    BidBook (c.dossier a) :=
  run_dossier hrun hfresh.bidBook (fun _ _ _ h hm => h.move hm)

/-- The bids of an auction, in every state of every run of the services. -/
theorem bids_stay_in_order (hfresh : Fresh (db.dossier a)) (hrun : SiteRun db before c) :
    (c.dossier a).row.listing = (db.dossier a).row.listing ∧
    (c.dossier a).bids.map Bid.sequenceNo = List.range' 1 (c.dossier a).bids.length ∧
    IsHighest (c.dossier a).row.currentHighestBid (c.dossier a).bids ∧
    (∀ x ∈ (c.dossier a).bids, ∀ y ∈ (c.dossier a).bids, x.status = .accepted →
      y.status = .accepted → x.sequenceNo < y.sequenceNo →
      x.amount + (db.dossier a).row.minIncrement ≤ y.amount ∧ x.amount ≠ y.amount) ∧
    ∀ b ∈ (c.dossier a).bids, (db.dossier a).row.startingPrice ≤ b.amount := by
  have hlisting : (c.dossier a).row.listing = (db.dossier a).row.listing :=
    run_dossier (I := fun d => d.row.listing = (db.dossier a).row.listing) hrun rfl
      (fun _ _ _ h hm => hm.listing.trans h)
  have hbook := run_bidBook hrun hfresh
  have hstart : (c.dossier a).row.startingPrice = (db.dossier a).row.startingPrice :=
    congrArg Listing.startingPrice hlisting
  have hincrement : (c.dossier a).row.minIncrement = (db.dossier a).row.minIncrement :=
    congrArg Listing.minIncrement hlisting
  refine ⟨hlisting, hbook.numbered, hbook.highest, ?_, ?_⟩
  · intro x hx y hy hsx hsy hlt
    have hgap := hbook.increments hx hy hsx hsy hlt
    have hpositive := hbook.terms.increment
    rw [hincrement] at hgap hpositive
    exact ⟨hgap, by lia⟩
  · intro b hb
    rw [← hstart]
    exact hbook.floor b hb

/-- Two bids, and the better one struck out. -/
theorem bids_stay_in_order_sample : ∃ before c, SiteRun sampleDatabase before c ∧
    (c.dossier 0).bids.length = 2 ∧ (c.dossier 0).row.currentHighestBid = some 60000000 ∧
    (c.dossier 0).bids.map Bid.sequenceNo = List.range' 1 (c.dossier 0).bids.length := by
  obtain ⟨m, hm⟩ := served_moment sampleDatabase
    (opening ++ [.call (.placeBid 0 2 (.int 600000)),
      .call (.placeBid 0 3 (.int 700000)), .call (.invalidateBid 0 3 0 "mistyped")])
    (fun w => (w.db.dossier 0).bids.length == 2 &&
      (w.db.dossier 0).row.currentHighestBid == some 60000000) (by decide +kernel)
  simp only [Bool.and_eq_true, beq_iff_eq] at hm
  exact ⟨m.past, m.now, m.run, hm.1, hm.2, (bids_stay_in_order sample_fresh m.run).2.1⟩

end Runs

end MbararaAuction
