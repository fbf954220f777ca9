import MbararaAuction.Machine.RefundBook
import MbararaAuction.Proofs.Served

namespace MbararaAuction
open Transactions

seal Tx.Exec

section Runs
variable {db s s' : Database} {a : AuctionId} {w w' : World Database Nat}
variable {before after : List (World Database Nat × Request Call Outside)}
variable {request : Request Call Outside}

/-- The account of the auction is in order, and what was lost is lost. -/
structure StillLost (a : AuctionId) (first s : Database) : Prop where
  accounted : Accounted (s.dossier a)
  lost : lost (first.dossier a).paymentStatus = true →
    (s.dossier a).paymentStatus = (first.dossier a).paymentStatus

theorem StillLost.commit {first : Database} {l : ServiceTx} {r : Value} {call : Call} {s₀ : Database}
    (h : StillLost a first s) (hattended : Attended call s₀ l s)
    (hx : (engine.prog l).Exec Exact s (.ok r) s') : StillLost a first s' := by
  rcases service_dossier (fun b => alone_admits b s.clock) hx a with ⟨_, hsame⟩ | ⟨ht, hm⟩
  · constructor
    · rw [hsame]
      exact h.accounted
    · rw [hsame]
      exact h.lost
  · obtain ⟨haccounted, hpayment⟩ := h.accounted.move hm (hattended.still_pending ht hm)
    refine ⟨haccounted, fun hlost => ?_⟩
    have hbefore := h.lost hlost
    rw [← hbefore] at hlost
    exact (hpayment.lost hlost).trans hbefore

theorem accounted_step (h : Accounted (w.db.dossier a)) (hs : engine.serve w request = some w') :
    StillLost a w.db w'.db := by
  have hfirst : StillLost a w.db w.db := ⟨h, fun _ => rfl⟩
  cases request with
  | outside v =>
    cases hs
    have hsame : (engine.outside v w.db).dossier a = w.db.dossier a :=
      congrFun (outside_dossier v w.db) a
    constructor
    · rw [hsame]
      exact h
    · rw [hsame]
      exact fun _ => rfl
  | call call =>
    cases hs
    exact ((body_attended call w.db).ends (fun l s r s' hl h hx => h.commit hl hx) hfirst).run

theorem served_accounted (hrun : Run engine.serve w after w') (h : Accounted (w.db.dossier a)) :
    Accounted (w'.db.dossier a) :=
  hrun.invariant (I := fun w => Accounted (w.db.dossier a)) h
    (fun _ _ _ h hs => (accounted_step h hs).accounted)

/-- What was lost is never settled again. -/
theorem served_lost (hrun : Run engine.serve w after w') (h : Accounted (w.db.dossier a))
    (hlost : lost (w.db.dossier a).paymentStatus = true) :
    lost (w'.db.dossier a).paymentStatus = true := by
  have hboth : Accounted (w'.db.dossier a) ∧ lost (w'.db.dossier a).paymentStatus = true := by
    refine hrun.invariant (I := fun w => Accounted (w.db.dossier a) ∧
      lost (w.db.dossier a).paymentStatus = true) ⟨h, hlost⟩ ?_
    rintro w request w' ⟨h, hlost⟩ hs
    have hstill := accounted_step h hs
    refine ⟨hstill.accounted, ?_⟩
    rw [hstill.lost hlost]
    exact hlost
  exact hboth.2

/-- In every state that requests lead to, served one after another: what is settled, or
waits to be settled again, is paid; a refund is the work of exactly one dispute, which
is resolved; and an auction whose payment was refunded or failed is never settled again. -/
theorem settled_means_paid (hfresh : Fresh (db.dossier a)) (hrun : Served db before w) :
    ((w.db.dossier a).row.status = .settled → (w.db.dossier a).paymentStatus = some .paid) ∧
    (∀ x ∈ (w.db.dossier a).disputes, x.isActive → x.auctionStatusBefore = .settled →
      (w.db.dossier a).paymentStatus = some .paid) ∧
    ((w.db.dossier a).paymentStatus = some .refunded ↔
      (w.db.dossier a).disputes.countP Dispute.refunded = 1) ∧
    (w.db.dossier a).disputes.countP Dispute.refunded ≤ 1 ∧
    (∀ x ∈ (w.db.dossier a).disputes, x.refunded → x.status = .resolved) ∧
    ∀ after w', Run engine.serve w after w' →
      (w.db.dossier a).paymentStatus = some .refunded ∨
        (w.db.dossier a).paymentStatus = some .failed → (w'.db.dossier a).row.status ≠ .settled := by
  have h : Accounted (w.db.dossier a) := served_accounted hrun hfresh.accounted
  have hcount := h.refunds.count
  refine ⟨fun hs => h.paid (.inl hs), fun x hx ha hb => h.paid (.inr ⟨x, hx, ha, hb⟩), ?_, ?_,
    h.refunds.resolved, ?_⟩
  · rw [hcount]
    split <;> simp_all
  · rw [hcount]
    split <;> omega
  · intro after w' hlater hs
    have hlost : lost (w.db.dossier a).paymentStatus = true := by
      rcases hs with hs | hs <;> rw [hs] <;> rfl
    exact (served_accounted hlater h).not_settled (served_lost hlater h hlost)

end Runs

/-- A sale that is paid, disputed and refunded, and then disputed once more. -/
theorem settled_means_paid_sample : ∃ before w, Served sampleDatabase before w ∧
    (w.db.dossier 0).paymentStatus = some .refunded ∧ (w.db.dossier 0).disputes.length = 2 ∧
    (w.db.dossier 0).disputes.countP Dispute.refunded = 1 := by
  obtain ⟨before, w, hrun, hq⟩ := served_state sampleDatabase
    (opening ++ [.call (.placeBid 0 2 (.int 700000)), .call (.closeAuction 0 none),
      .call (.markPaid 0 4 false 0 "CASH" "" ""),
      .call (.openDispute 0 2 "NOT_DELIVERED" "Nobody was there"),
      .call (.resolveDispute 0 7 0 "UPHELD" "It was never delivered" true),
      .call (.openDispute 0 1 "OTHER" "It was delivered after all"),
      .call (.resolveDispute 0 12 0 "DISMISSED" "No proof of delivery" false)])
    (fun w => (w.db.dossier 0).paymentStatus == some .refunded &&
      (w.db.dossier 0).disputes.length == 2) (by decide +kernel)
  simp only [Bool.and_eq_true, beq_iff_eq] at hq
  exact ⟨before, w, hrun, hq.1, hq.2, (settled_means_paid sample_fresh hrun).2.2.1.mp hq.1⟩

end MbararaAuction
