import MbararaAuction.Machine.Closing
import MbararaAuction.Proofs.Sales

namespace MbararaAuction
open Transactions

seal Tx.Exec

section Total
variable {sees : Database → Database → Prop} {s s' : Database} {a : AuctionId} {e : PyError}

theorem createPendingPayment_no_error {auction : Auction} :
    ¬ (createPendingPayment a auction).Exec sees s (.error e) s' := by
  intro h
  simp only [createPendingPayment, exec_query_bind] at h
  cases hpayments : (s.dossier a).payments with
  | cons p ps =>
    simp only [hpayments, List.map_cons, List.head?_cons, exec_pure, reduceCtorEq, false_and] at h
  | nil =>
    simp only [hpayments, List.map_nil, List.head?_nil] at h
    cases hw : auction.winner with
    | none => simp only [hw, exec_pure, reduceCtorEq, false_and] at h
    | some u =>
      cases hp : auction.finalPrice with
      | none => simp only [hw, hp, exec_pure, reduceCtorEq, false_and] at h
      | some price =>
        simp only [hw, hp] at h
        rcases (exec_bind_error ..).mp h with h | ⟨_, t, _, h⟩
        · simp [createPayment, exec_nextPk_bind, exec_query_bind, exec_refuse_bind,
            exec_update_bind, hpayments] at h
        · exact (quiet_record ..).no_error (exec_then_pure_error h)

/-- A live auction can always be closed. -/
theorem closeAuction_error {actor : Option UserId} {reason : String}
    (h : (closeAuction a actor reason).Exec sees s (.error e) s') :
    (s.dossier a).row.status ≠ .live := by
  simp only [closeAuction, exec_lockedAuction_bind, exec_refuse_bind, exec_query_bind,
    exec_saveAuction_bind] at h
  rcases h with ⟨hstatus, _⟩ | ⟨hlive, h⟩
  · exact hstatus
  rcases (exec_bind_error ..).mp h with htrans | ⟨closed, t, _, h⟩
  · rcases transition_error htrans with hnot | ⟨hrejected, _⟩
    · rw [amend_self, Dossier.onRow_row, Auction.withSale_status, not_not.mp hlive] at hnot
      exact absurd (by simp [allowedTransitions]) hnot
    · cases hrejected
  cases hwinner : (saleOf (s.dossier a).row (highestAccepted (s.dossier a).bids)).winner with
  | none =>
    simp only [hwinner] at h
    exact absurd (exec_then_pure_error h) (quiet_notify _).no_error
  | some w =>
    simp only [hwinner] at h
    obtain ⟨_, _, _, h⟩ := (quiet_record ..).skip h
    obtain ⟨_, _, _, h⟩ := (quiet_notify _).skip h
    exact absurd (exec_then_pure_error h) createPendingPayment_no_error

/-- Closing a live auction alone succeeds and decides it. -/
theorem closeAuction_runs (actor : Option UserId) (reason : String) (w : World Database Nat)
    (hlive : (w.db.dossier a).row.status = .live) :
    ∃ row w', (closeAuction a actor reason).atomic w = (.ok row, w') ∧
      Move .any .close (w.db.dossier a) (w'.db.dossier a) := by
  obtain ⟨row, w', hrun, hx⟩ := atomic_ok fun e s hx => closeAuction_error hx hlive
  obtain ⟨d, hm, hb⟩ : Moved .any .close a w.db w'.db := closeAuction_moved hx
  rw [← hb.here] at hm
  exact ⟨row, w', hrun, hm⟩

end Total

/-- `close_auction` decides every live auction. In any state at all it sells to the
best standing bid if that meets the reserve; in a state that the services can
reach, that bid is the strictly greatest one, the price is the current maximum,
and it is fair to the seller. -/
theorem close_auction_decides (a : AuctionId) (actor : Option UserId) (reason : String) :
    (∀ w : World Database Nat, (w.db.dossier a).row.status = .live →
      ∃ row w', (closeAuction a actor reason).atomic w = (.ok row, w') ∧
        Decided (w.db.dossier a) (w'.db.dossier a)) ∧
    ∀ (db : Database) (m : engine.Moment db), Fresh (db.dossier a) →
      (m.now.dossier a).row.status = .live →
      ∃ row w', (closeAuction a actor reason).atomic m.now.world = (.ok row, w') ∧
        Decided (m.now.dossier a) (w'.db.dossier a) ∧
        ((∃ b ∈ (m.now.dossier a).bids, b.status = .accepted) →
          ∃ b, Best (m.now.dossier a).bids b ∧
            (∀ x ∈ (m.now.dossier a).bids, x.status = .accepted → x ≠ b → x.amount < b.amount) ∧
            ((w'.db.dossier a).row.reserveMet = some true →
              (w'.db.dossier a).row.finalPrice = some b.amount ∧
              (w'.db.dossier a).row.currentHighestBid = some b.amount ∧
              (w'.db.dossier a).row.startingPrice ≤ b.amount ∧
              (∀ r, (w'.db.dossier a).row.reservePrice = some r → r ≤ b.amount) ∧
              b.bidder ≠ (w'.db.dossier a).row.seller)) := by
  constructor
  · intro w hlive
    obtain ⟨row, w', hrun, hm⟩ := closeAuction_runs actor reason w hlive
    exact ⟨row, w', hrun, decided_of_close hm⟩
  · intro db m hfresh hlive
    obtain ⟨row, w', hrun, hm⟩ := closeAuction_runs actor reason m.now.world hlive
    have hdecided := decided_of_close hm
    have hbook := (run_sound m.run hfresh).bids
    refine ⟨row, w', hrun, hdecided, fun hstanding => ?_⟩
    obtain ⟨b, hbest, hstrict⟩ := hbook.best hstanding
    obtain ⟨hhighest, hlisting⟩ := close_row hm
    have hstart := congrArg Listing.startingPrice hlisting
    have hreserve := congrArg Listing.reservePrice hlisting
    have hseller := congrArg Listing.seller hlisting
    simp only [Auction.listing] at hstart hreserve hseller
    refine ⟨b, hbest, hstrict, fun hmet => ⟨(hdecided.sold b hbest hmet).2, ?_, ?_, ?_, ?_⟩⟩
    · rw [hhighest]
      exact hbook.best_highest hbest
    · rw [hstart]
      exact hbook.floor b hbest.1.1
    · rw [hreserve]
      exact (hdecided.reserve b hbest).2.mp hmet
    · rw [hseller]
      exact hbook.outsider b hbest.1.1

/-- Two bids above the reserve, and the close that decides between them. -/
theorem close_auction_decides_sample : ∃ (m : engine.Moment sampleDatabase) (row : Auction)
    (w' : World Database Nat), (m.now.dossier 0).bids.length = 2 ∧
      (closeAuction 0 none automatedClosing).atomic m.now.world = (.ok row, w') ∧
      (w'.db.dossier 0).row.status = .closed ∧ (w'.db.dossier 0).bids = (m.now.dossier 0).bids := by
  obtain ⟨m, hm⟩ := served_moment sampleDatabase
    (opening ++ [.call (.placeBid 0 2 (.int 600000)), .call (.placeBid 0 3 (.int 700000))])
    (fun w => (w.db.dossier 0).row.status == .live && (w.db.dossier 0).bids.length == 2)
    (by decide +kernel)
  simp only [Bool.and_eq_true, beq_iff_eq] at hm
  obtain ⟨row, w', hrun, hdecided, _⟩ :=
    (close_auction_decides 0 none automatedClosing).2 sampleDatabase m sample_fresh hm.1
  exact ⟨m, row, w', hm.2, hrun, hdecided.closed, hdecided.bids⟩

end MbararaAuction
