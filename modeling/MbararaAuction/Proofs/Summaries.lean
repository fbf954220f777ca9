import MbararaAuction.Proofs.Ranges
import MbararaAuction.Proofs.Sales

namespace MbararaAuction
open Transactions

seal Tx.Exec

section Dossiers
variable {d : Dossier}

theorem finished_iff {row : Auction} : row.finished = true ↔ row.status.beforeClose = false := by
  unfold Auction.finished
  cases row.status <;> decide

/-- A sold auction has one payment, for its price, and another has none. -/
theorem SaleBook.amounts (h : SaleBook d) : d.payments.map Payment.amount =
    if d.row.sold then [d.row.finalPrice.getD 0] else [] := by
  cases hphase : d.row.status.beforeClose with
  | true =>
    obtain ⟨-, hnone⟩ := h.early hphase
    have hopen : d.row.sold = false := by
      simp [Auction.sold, ← Bool.not_eq_true, finished_iff, hphase]
    simp [hopen, hnone]
  | false =>
    have hfinished : d.row.finished = true := finished_iff.mpr hphase
    rcases (h.late hphase).cases with ⟨hwinner, hamounts⟩ | ⟨u, price, hwinner, hprice, -, hamounts⟩
    · change d.row.winner = none at hwinner
      simp [Auction.sold, hwinner, hamounts]
    · change d.row.winner = some u at hwinner
      change d.row.finalPrice = some price at hprice
      simp [Auction.sold, hfinished, hwinner, hprice, hamounts]

end Dossiers

section Tables
variable {tables : ReportTables}

/-- The payments of all auctions, auction by auction. -/
theorem rows_amounts : (tables.rows Dossier.payments).map (fun x => x.2.amount) =
    tables.auctionPks.flatMap fun a => (tables.dossier a).payments.map Payment.amount := by
  simp only [ReportTables.rows, List.map_flatMap, List.map_map, Function.comp_def]

/-- The prices of the auctions that are sold are the amounts of the payments. -/
theorem sold_amounts (h : ∀ a ∈ tables.auctionPks, SaleBook (tables.dossier a)) :
    (tables.auctionPks.filter fun a => (tables.row a).sold).map
        (fun a => (tables.row a).finalPrice.getD 0) =
      (tables.rows Dossier.payments).map fun x => x.2.amount := by
  rw [rows_amounts]
  generalize tables.auctionPks = pks at h ⊢
  induction pks with
  | nil => rfl
  | cons a rest ih =>
    obtain ⟨ha, hrest⟩ := List.forall_mem_cons.mp h
    rw [List.flatMap_cons, ha.amounts, ← ih hrest, List.filter_cons]
    unfold ReportTables.row
    split <;> rfl

end Tables

section Reports
variable {server : ReportServer} {tables : ReportTables} {dateFrom dateTo : Option Date}
  {s : Summary}

/-- A summary is of rows whose payments are those in range. -/
theorem buildSummary_figures (h : buildSummary server tables dateFrom dateTo = .ok s) :
    ∃ x, paymentsInRange server tables dateFrom dateTo = .ok x.payments ∧
      figures server tables x = .ok s := by
  obtain ⟨range, -, h⟩ := report_bind_eq_ok h
  obtain ⟨auctions, -, h⟩ := report_bind_eq_ok h
  obtain ⟨bids, -, h⟩ := report_bind_eq_ok h
  obtain ⟨payments, hpayments, h⟩ := report_bind_eq_ok h
  obtain ⟨disputes, -, h⟩ := report_bind_eq_ok h
  exact ⟨⟨auctions, bids, payments, disputes⟩, hpayments, h⟩

/-- Without dates the figures are of all rows. -/
theorem buildSummary_all : buildSummary server tables none none = figures server tables
    ⟨tables.auctionPks, tables.acceptedBids, tables.rows Dossier.payments,
      tables.rows Dossier.disputes⟩ := rfl

/-- The sales of a summary. -/
theorem figures_sales {x : Selection} (h : figures server tables x = .ok s) :
    s.salesValue = priceSum tables (x.auctions.filter fun a => (tables.row a).sold) ∧
      s.soldCount = (x.auctions.filter fun a => (tables.row a).sold).length := by
  simp only [figures, finished_sold] at h
  obtain ⟨v, -, h⟩ := report_bind_eq_ok h
  cases h
  exact ⟨rfl, rfl⟩

/-- The figures of a summary agree with each other; and where the rows come from the
services, the sales of a summary of everything are its payments. -/
theorem summary_reconciles :
    (∀ (server : ReportServer) (tables : ReportTables) (dateFrom dateTo : Option Date)
      (s : Summary), buildSummary server tables dateFrom dateTo = .ok s →
      ∃ payments, paymentsInRange server tables dateFrom dateTo = .ok payments ∧
        Reconciles payments s) ∧
    ∀ (db : Database) (before : List (Site × SiteEvent)) (c : Site) (server : ReportServer)
      (tables : ReportTables), SiteRun db before c → tables.toDatabase = c.world.db →
      (∀ a ∈ tables.auctionPks, Fresh (db.dossier a)) →
      ∃ s, buildSummary server tables none none = .ok s ∧
        s.salesValue = (s.paymentRows.map PaymentRow.amount).sum ∧
        s.soldCount = (tables.rows Dossier.payments).length := by
  constructor
  · intro server tables dateFrom dateTo s h
    obtain ⟨x, hpayments, hfigures⟩ := buildSummary_figures h
    exact ⟨x.payments, hpayments, figures_reconcile hfigures⟩
  · intro db before c server tables hrun hrows hfresh
    have hbooks : ∀ a ∈ tables.auctionPks, SaleBook (tables.dossier a) := by
      intro a ha
      rw [hrows]
      exact (run_sound hrun (hfresh a ha)).sale
    have hsold := sold_amounts hbooks
    have hall : ∀ a ∈ tables.auctionPks, a ∈ tables.auctionPks := fun _ ha => ha
    obtain ⟨s, hs⟩ := figures_ok (x := ⟨tables.auctionPks, tables.acceptedBids,
      tables.rows Dossier.payments, tables.rows Dossier.disputes⟩) server hall
    obtain ⟨hvalue, hcount⟩ := figures_sales hs
    have hamounts := (figures_reconcile hs).amounts
    refine ⟨s, buildSummary_all.trans hs, ?_, ?_⟩
    · rw [hvalue, hamounts, priceSum_eq, hsold]
    · have hlength := congrArg List.length hsold
      rw [List.length_map, List.length_map] at hlength
      rw [hcount, hlength]

/-- A summary after a sale that the sweep has closed. -/
theorem summary_reconciles_sample : ∃ (tables : ReportTables) (s : Summary)
    (payments : List (AuctionId × Payment)),
    buildSummary sampleServer tables none none = .ok s ∧ Reconciles payments s ∧
      s.salesValue = (s.paymentRows.map PaymentRow.amount).sum ∧
      s.soldCount = (tables.rows Dossier.payments).length ∧ tables.rows Dossier.payments ≠ [] := by
  obtain ⟨m, hm⟩ := served_moment sampleDatabase
    (opening ++ [.call (.placeBid 0 2 (.int 700000)), .outside (.tick 9000000000),
      .call .closeEndedAuctions])
    (fun w => w.db.auctionPks == [0] && ((w.db.dossier 0).row.finalPrice == some 70000000 &&
      !(w.db.dossier 0).payments.isEmpty))
    (by decide +kernel)
  simp only [Bool.and_eq_true, beq_iff_eq, Bool.not_eq_true', List.isEmpty_eq_false_iff] at hm
  obtain ⟨hpks, hprice, hpayments⟩ := hm
  let tables : ReportTables :=
    { m.now.world.db with
      categoryName := sampleTables.categoryName
      auctionCreatedAt := sampleTables.auctionCreatedAt
      paymentCreatedAt := sampleTables.paymentCreatedAt
      disputeCreatedAt := sampleTables.disputeCreatedAt
      pricesFit := by
        intro a ha p hp
        rw [hpks, List.mem_singleton] at ha
        rw [ha, hprice, Option.some.injEq] at hp
        rw [← hp]
        decide }
  have hfresh : ∀ a ∈ tables.auctionPks, Fresh (sampleDatabase.dossier a) :=
    fun _ _ => sample_fresh
  obtain ⟨s, hs, hvalue, hcount⟩ := summary_reconciles.2 sampleDatabase m.past m.now sampleServer
    tables m.run rfl hfresh
  obtain ⟨payments, -, hreconciles⟩ := summary_reconciles.1 sampleServer tables none none s hs
  refine ⟨tables, s, payments, hs, hreconciles, hvalue, hcount, ?_⟩
  simp [ReportTables.rows, tables, hpks, hpayments]

end Reports

end MbararaAuction
