import MbararaAuction.Machine.StandingSale
import MbararaAuction.Proofs.Sales

namespace MbararaAuction
open Transactions

seal Tx.Exec

/-- The transaction does not strike out the bid that a declared sale rests on. -/
def SparesSale (a : AuctionId) (_ : Call) (l : ServiceTx) (s : Database) : Prop :=
  ∀ pk actor reason, l = .invalidateBid a pk actor reason → ¬ Decisive (s.dossier a) pk

theorem invalidates {l : ServiceTx} {a : AuctionId} {pk : Nat} (ht : l.target = some a)
    (hact : l.action = .invalidate pk) : ∃ actor reason, l = .invalidateBid a pk actor reason := by
  cases l <;> simp_all [ServiceTx.target, ServiceTx.action]

section Runs
variable {db : Database} {before : List (Site × SiteEvent)} {c c' : Site} {a : AuctionId}
variable {ev : SiteEvent}

/-- A step that spares the bid of the sale keeps the sale on it. -/
theorem rests_step (hrun : SiteRun db before c) (hfresh : Fresh (db.dossier a))
    (hrests : Rests (c.dossier a)) (hspares : c.Meets (SparesSale a) ev)
    (hs : engine.step c ev = some c') : Rests (c'.dossier a) := by
  rcases step_dossier hrun hs a with ⟨hsame, _⟩ | ⟨call, l, hc, ht, hm⟩
  · rwa [hsame]
  · refine hrests.move (run_sound hrun hfresh) hm fun pk hact => ?_
    obtain ⟨actor, reason, rfl⟩ := invalidates ht hact
    exact hspares call _ hc pk actor reason rfl

/-- A step that does not spare it leaves the sale without a bid. -/
theorem rests_breaks (hrun : SiteRun db before c) (hfresh : Fresh (db.dossier a))
    (hstrikes : ¬ c.Meets (SparesSale a) ev) (hs : engine.step c ev = some c') :
    ¬ Rests (c'.dossier a) := by
  simp only [Config.Meets, SparesSale] at hstrikes
  push Not at hstrikes
  obtain ⟨call, _, hc, pk, actor, reason, rfl, hdecisive⟩ := hstrikes
  have hm := commit_move (a := a) hrun hs hc rfl
  simp only [ServiceTx.action] at hm
  generalize c'.dossier a = d' at hm
  cases hm with
  | invalidate => exact rests_broken (run_sound hrun hfresh).bids hdecisive

/-- In a run of the services a declared sale always rests on the best standing bid
exactly when nobody ever strikes out the bid that made it. -/
theorem sales_rest_iff (hfresh : Fresh (db.dossier a)) (hrun : SiteRun db before c) :
    (∀ y ∈ trail before c, Rests (y.dossier a)) ↔ Met (SparesSale a) before := by
  refine hrun.exact (G := fun before c => ∀ y ∈ trail before c, Rests (y.dossier a))
    (I := fun before c => ∀ y ∈ trail before c, Rests (y.dossier a))
    (A := Config.Meets (SparesSale a)) ?_ ?_ (fun _ _ _ h => h) ?_ ?_
  · intro y hy
    rw [trail_start, List.mem_singleton] at hy
    subst hy
    exact rests_unsold hfresh.unsold.2.1
  · intro before c ev c' run hrests hspares hs y hy
    rcases mem_trail_snoc.mp hy with hy | rfl
    · exact hrests y hy
    · exact rests_step run hfresh (hrests c mem_trail_last) hspares hs
  · intro before c ev c' hgood y hy
    exact hgood y (mem_trail_snoc.mpr (.inl hy))
  · intro before c ev c' run hrests hstrikes hs hgood
    exact rests_breaks run hfresh hstrikes hs (hgood c' mem_trail_last)

/-- A sale that nobody touched. -/
theorem sales_rest_sample : ∃ m : engine.Moment sampleDatabase,
    (m.now.dossier 0).row.finalPrice = some 70000000 ∧
    ((∀ y ∈ trail m.past m.now, Rests (y.dossier 0)) ↔ Met (SparesSale 0) m.past) := by
  obtain ⟨m, hm⟩ := served_moment sampleDatabase
    (opening ++ [.call (.placeBid 0 2 (.int 700000)), .call (.closeAuction 0 none)])
    (fun w => (w.db.dossier 0).row.finalPrice == some 70000000) (by decide +kernel)
  rw [beq_iff_eq] at hm
  exact ⟨m, hm, sales_rest_iff sample_fresh m.run⟩

/-- The winning bid is struck out after the close: a winner and a price remain, and
no bid. -/
theorem sale_without_bid : ¬ ∀ (db : Database) (a : AuctionId) (m : engine.Moment db),
    Fresh (db.dossier a) → Rests (m.now.dossier a) := by
  intro hall
  obtain ⟨m, hm⟩ := served_moment sampleDatabase
    (opening ++ [.call (.placeBid 0 2 (.int 700000)), .call (.closeAuction 0 none),
      .call (.invalidateBid 0 2 0 "Bidder withdrew")])
    (fun w => (w.db.dossier 0).row.winner == some 2 &&
      (w.db.dossier 0).row.finalPrice == some 70000000 &&
      (w.db.dossier 0).row.currentHighestBid == none) (by decide +kernel)
  simp only [Bool.and_eq_true, beq_iff_eq] at hm
  obtain ⟨⟨hwinner, hprice⟩, hhighest⟩ := hm
  obtain ⟨_, _, hclaimed⟩ := hall sampleDatabase 0 m sample_fresh 2 70000000 hwinner hprice
  rw [hhighest] at hclaimed
  cases hclaimed

end Runs

end MbararaAuction
