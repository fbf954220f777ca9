import MbararaAuction.Machine.BidRecords
import MbararaAuction.Proofs.Bids

namespace MbararaAuction
open Transactions Queries

seal Tx.Exec

/-- The transaction strikes out only bids of the auction that still stand. -/
def StrikesStanding (a : AuctionId) (_ : Call) (l : ServiceTx) (s : Database) : Prop :=
  l.target = some a → StillStands l.action (s.dossier a)

instance (a : AuctionId) (call : Call) (l : ServiceTx) (s : Database) :
    Decidable (StrikesStanding a call l s) :=
  inferInstanceAs (Decidable (l.target = some a → StillStands l.action (s.dossier a)))

section Runs
variable {db : Database} {before : List (Site × SiteEvent)} {c c' : Site} {a : AuctionId}
variable {ev : SiteEvent}

theorem later_bids_step (hrun : SiteRun db before c) (hfresh : Fresh (db.dossier a))
    (hs : engine.step c ev = some c') :
    Carried Bid.pk Bid.Later (c.dossier a).bids (c'.dossier a).bids := by
  have hbook := run_bidBook hrun hfresh
  rcases step_dossier hrun hs a with ⟨hsame, _⟩ | ⟨_, _, _, _, hm⟩
  · rw [hsame]
    exact .refl hbook.keys Bid.Later.refl
  · exact hm.later_bids hbook

theorem final_bids_step (hrun : SiteRun db before c) (hfresh : Fresh (db.dossier a))
    (hstands : c.Meets (StrikesStanding a) ev) (hs : engine.step c ev = some c') :
    Carried Bid.pk Bid.Final (c.dossier a).bids (c'.dossier a).bids := by
  have hbook := run_bidBook hrun hfresh
  rcases step_dossier hrun hs a with ⟨hsame, _⟩ | ⟨call, l, hc, ht, hm⟩
  · rw [hsame]
    exact .refl hbook.keys Bid.Final.refl
  · exact hm.final_bids hbook (hstands call l hc ht)

/-- Offers never change and no bid becomes valid again, in any run of the services;
and where every invalidation finds a bid that stands, its record is the first one. -/
theorem bids_written_once (hfresh : Fresh (db.dossier a)) (hrun : SiteRun db before c) :
    (trail before c).Pairwise (fun x y =>
      Carried Bid.pk Bid.Later (x.dossier a).bids (y.dossier a).bids) ∧
    (Met (StrikesStanding a) before → (trail before c).Pairwise (fun x y =>
      Carried Bid.pk Bid.Final (x.dossier a).bids (y.dossier a).bids)) := by
  constructor
  · apply hrun.pairwise (A := fun _ _ => True)
    · exact fun before c run => .refl (run_bidBook run hfresh).keys Bid.Later.refl
    · exact Carried.trans (R := Bid.Later) Bid.Later.trans
    · exact fun before c ev c' run _ hs => later_bids_step run hfresh hs
    · exact fun _ _ => trivial
  · intro hmet
    apply hrun.pairwise (A := Config.Meets (StrikesStanding a))
    · exact fun before c run => .refl (run_bidBook run hfresh).keys Bid.Final.refl
    · exact Carried.trans (R := Bid.Final) Bid.Final.trans
    · exact fun before c ev c' run hstands hs => final_bids_step run hfresh hstands hs
    · exact hmet

end Runs

section Schedules

/-- An officer strikes out the only bid. -/
def struckOut : List SiteEvent :=
  biddingOpens ++ [.call 3 (.placeBid 0 2 (.int 700000))] ++ moves 3 17 ++
    [.call 4 (.invalidateBid 0 2 0 "Bidder withdrew")] ++ moves 4 12

/-- One invalidation, whose record stays. -/
theorem bids_written_once_sample : ∃ m : engine.Moment sampleDatabase,
    (m.now.dossier 0).bids.map Bid.status = [.invalidated] ∧
    (trail m.past m.now).Pairwise (fun x y =>
      Carried Bid.pk Bid.Final (x.dossier 0).bids (y.dossier 0).bids) := by
  obtain ⟨m, hmet, hq⟩ := scheduled_met engine sampleDatabase (StrikesStanding 0) struckOut
    (fun c => (c.dossier 0).bids.map Bid.status == [.invalidated]) (by decide +kernel)
  rw [beq_iff_eq] at hq
  exact ⟨m, hq, (bids_written_once sample_fresh m.run).2 hmet⟩

/-- A second officer strikes out the same bid, and the first record is lost. -/
theorem struck_bid_rewritten : ¬ ∀ (db : Database) (a : AuctionId) (m : engine.Moment db),
    Fresh (db.dossier a) → (trail m.past m.now).Pairwise (fun x y =>
      Carried Bid.pk Bid.Final (x.dossier a).bids (y.dossier a).bids) := by
  intro hall
  obtain ⟨m, m', hm, hfirst, hsecond⟩ := scheduled_moments engine sampleDatabase struckOut
    ([.call 5 (.invalidateBid 0 2 0 "Wrong amount")] ++ moves 5 12)
    (fun c => (c.dossier 0).bids.map (fun b => (b.status, b.invalidatedReason)) ==
      [(.invalidated, "Bidder withdrew")])
    (fun c => (c.dossier 0).bids.map (fun b => (b.status, b.invalidatedReason)) ==
      [(.invalidated, "Wrong amount")]) (by decide +kernel) (by decide +kernel)
  rw [beq_iff_eq] at hfirst hsecond
  have hrefl : Carried Bid.pk Bid.Final (m'.now.dossier 0).bids (m'.now.dossier 0).bids :=
    .refl (run_bidBook m'.run sample_fresh).keys Bid.Final.refl
  have hcarried := pairwise_last (hall sampleDatabase 0 m' sample_fresh) hrefl hm.mem_trail
  obtain ⟨x, hx, hxs⟩ : ∃ x ∈ (m.now.dossier 0).bids,
      (x.status, x.invalidatedReason) = (.invalidated, "Bidder withdrew") := by
    apply List.mem_map.mp
    rw [hfirst]
    exact List.mem_singleton_self _
  obtain ⟨y, hy, hfinal⟩ := hcarried x hx
  have hys := List.mem_map_of_mem (f := fun b : Bid => (b.status, b.invalidatedReason))
    (find_key hy).1
  rw [hsecond, List.mem_singleton, hfinal.struck (congrArg Prod.fst hxs), hxs] at hys
  exact absurd (congrArg Prod.snd hys) (by decide)

end Schedules

end MbararaAuction
