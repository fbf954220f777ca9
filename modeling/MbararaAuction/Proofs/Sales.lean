import MbararaAuction.Machine.SaleBook
import MbararaAuction.Proofs.Histories

namespace MbararaAuction
open Transactions

seal Tx.Exec

/-- The transactions that close the auction `a`. -/
def closes (a : AuctionId) (l : ServiceTx) : Bool := l.target = some a ∧ l.action = .close

section Runs
variable {db : Database} {before : List (Site × SiteEvent)} {c c' : Site} {a : AuctionId}

theorem run_sound (hrun : SiteRun db before c) (hfresh : Fresh (db.dossier a)) :
    Sound (c.dossier a) :=
  run_dossier hrun hfresh.sound (fun _ _ _ h hm => h.move hm)

/-- Only a close leads past the close. -/
theorem close_phase {view : View} {d d' : Dossier} (hm : Move view .close d d') :
    d.row.status.beforeClose = true ∧ d'.row.status.beforeClose = false := by
  cases hm with
  | close live => exact ⟨by rw [live]; rfl, rfl⟩

/-- The history counts one close of an auction that is closed, and none of another. -/
theorem closes_counted (hrun : SiteRun db before c) (hfresh : Fresh (db.dossier a)) :
    commitCount (closes a) before = if (c.dossier a).row.status.beforeClose then 0 else 1 := by
  refine hrun.history (A := fun _ _ => True) (I := fun before c => commitCount (closes a) before =
    if (c.dossier a).row.status.beforeClose then 0 else 1) ?_ ?_ (fun _ _ => trivial)
  · change 0 = if (db.dossier a).row.status.beforeClose then 0 else 1
    simp [hfresh.draft, Status.beforeClose]
  · intro before c ev c' run hi _ hs
    rw [commitCount_snoc, hi]
    rcases step_dossier run hs a with ⟨hsame, hnone⟩ | ⟨call, l, hc, ht, hm⟩
    · have hcount : (c.commits ev).any (fun y => closes a y.2) = false := by
        cases hc : c.commits ev with
        | none => rfl
        | some y => simp [closes, hnone _ _ hc]
      rw [hcount, hsame]
      rfl
    · by_cases hact : l.action = .close
      · have hcount : (c.commits ev).any (fun y => closes a y.2) = true := by
          simp [hc, closes, ht, hact]
        rw [hact] at hm
        obtain ⟨hearly, hlate⟩ := close_phase hm
        simp [hcount, hearly, hlate]
      · have hcount : (c.commits ev).any (fun y => closes a y.2) = false := by
          simp [hc, closes, hact]
        rw [hcount, (hm.same_sale (run_sound run hfresh).disputes hact).phase]
        rfl

/-- Once closed, an auction keeps its sale and its bill. -/
theorem leads_same_sale {m m' : engine.Moment db} (h : m.Leads m') (hfresh : Fresh (db.dossier a))
    (hlate : (m.now.dossier a).row.status.beforeClose = false) :
    SameSale (m.now.dossier a) (m'.now.dossier a) := by
  refine leads_dossier (I := Sound)
    (R := fun d d' => d.row.status.beforeClose = false → SameSale d d') h (fun _ _ => ⟨rfl, rfl, rfl⟩)
    ?_ (fun m => run_sound m.run hfresh) ?_ hlate
  · intro d e f hde hef hd
    obtain ⟨hphase, hsale, hbill⟩ := hde hd
    obtain ⟨hphase', hsale', hbill'⟩ := hef (hphase.trans hd)
    exact ⟨hphase'.trans hphase, hsale'.trans hsale, hbill'.trans hbill⟩
  · intro act d d' hsound hm hd
    refine hm.same_sale hsound.disputes ?_
    rintro rfl
    rw [(close_phase hm).1] at hd
    cases hd

/-- An auction is billed exactly when it was closed with a winner, once and for the
price; it is closed at most once, and what the close decided stays. -/
theorem one_payment_per_sale (hfresh : Fresh (db.dossier a)) {m m' : engine.Moment db}
    (h : m.Leads m') :
    ((m'.now.dossier a).payments ≠ [] ↔
      ((m'.now.dossier a).row.status = .closed ∨ (m'.now.dossier a).row.status = .settled ∨
        (m'.now.dossier a).row.status = .completed ∨ (m'.now.dossier a).row.status = .disputed) ∧
      (m'.now.dossier a).row.winner ≠ none) ∧
    (∀ p ∈ (m'.now.dossier a).payments, (m'.now.dossier a).payments = [p] ∧
      (m'.now.dossier a).row.finalPrice = some p.amount ∧ 0 < p.amount) ∧
    commitCount (closes a) m'.past ≤ 1 ∧
    (0 < commitCount (closes a) m.past →
      (m'.now.dossier a).row.winner = (m.now.dossier a).row.winner ∧
      (m'.now.dossier a).row.finalPrice = (m.now.dossier a).row.finalPrice ∧
      (m'.now.dossier a).row.reserveMet = (m.now.dossier a).row.reserveMet ∧
      (m'.now.dossier a).payments.map Payment.amount =
        (m.now.dossier a).payments.map Payment.amount) ∧
    ((m'.now.dossier a).row.status = .cancelled →
      (m'.now.dossier a).row.winner = none ∧ (m'.now.dossier a).payments = []) := by
  have hbook := (run_sound m'.run hfresh).sale
  have hcount := closes_counted m'.run hfresh
  refine ⟨by rw [hbook.billed_iff, late_iff], fun p hp => hbook.single hp, ?_, ?_, ?_⟩
  · rw [hcount]
    split <;> simp
  · intro hclosed
    rw [closes_counted m.run hfresh] at hclosed
    have hlate : (m.now.dossier a).row.status.beforeClose = false := by
      by_contra he
      simp [Bool.eq_true_of_not_eq_false he] at hclosed
    have hsame := leads_same_sale h hfresh hlate
    have hsale := hsame.sale
    simp only [Auction.sale, Sale.mk.injEq] at hsale
    exact ⟨hsale.1, hsale.2.1, hsale.2.2, hsame.amounts⟩
  · intro hcancelled
    obtain ⟨hsale, hnone⟩ := hbook.early (by rw [hcancelled]; rfl)
    exact ⟨congrArg Sale.winner hsale, hnone⟩

/-- A sale that was closed by the sweep, and that nobody can close again. -/
theorem one_payment_per_sale_sample : ∃ m : engine.Moment sampleDatabase,
    (m.now.dossier 0).row.status = .closed ∧ (m.now.dossier 0).row.winner = some 2 ∧
    (m.now.dossier 0).payments ≠ [] ∧ commitCount (closes 0) m.past ≤ 1 := by
  obtain ⟨m, hm⟩ := served_moment sampleDatabase
    (opening ++ [.call (.placeBid 0 2 (.int 700000)), .outside (.tick 9000000000),
      .call (.sweepDue none), .call .closeEndedAuctions, .call (.endNow 0 0 "Late")])
    (fun w => (w.db.dossier 0).row.status == .closed && (w.db.dossier 0).row.winner == some 2)
    (by decide +kernel)
  simp only [Bool.and_eq_true, beq_iff_eq] at hm
  obtain ⟨hbilled, _, honce, _⟩ := one_payment_per_sale sample_fresh (.refl m)
  exact ⟨m, hm.1, hm.2, hbilled.mpr ⟨.inl hm.1, by simp [hm.2]⟩, honce⟩

end Runs

end MbararaAuction
