import MbararaAuction.Proofs.Bids
import MbararaAuction.Proofs.Effects

namespace MbararaAuction
open Transactions Queries Locking

seal Tx.Exec

theorem ranking_latestHighestFirst : Ranking latestHighestFirst where
  asymm x y h := by
    simp only [latestHighestFirst, Bool.or_eq_true, decide_eq_true_eq, Bool.and_eq_true,
      beq_iff_eq] at h ⊢
    lia
  split x y z h := by
    simp only [latestHighestFirst, Bool.or_eq_true, decide_eq_true_eq, Bool.and_eq_true,
      beq_iff_eq] at h ⊢
    lia

/-- Where no two bids tie, it does not matter which way ties are broken. -/
theorem BidBook.leader {d : Dossier} (h : BidBook d) :
    firstBy latestHighestFirst (accepted d.bids) = highestAccepted d.bids := by
  cases hleader : highestAccepted d.bids with
  | none =>
    unfold highestAccepted at hleader
    rw [firstBy_eq_none] at hleader ⊢
    exact hleader
  | some b =>
    obtain ⟨⟨hb, hs⟩, hmax⟩ := highestAccepted_some hleader
    apply firstBy_eq_some ranking_latestHighestFirst (mem_accepted.mpr ⟨hb, hs⟩)
    intro y hy hne
    obtain ⟨hy, hsy⟩ := mem_accepted.mp hy
    have hle := (hmax y hy hsy).1
    have hother : y.amount ≠ b.amount := fun he => hne (h.no_tie hy hb hsy hs he)
    simp only [latestHighestFirst, Bool.or_eq_true, decide_eq_true_eq]
    left
    lia

/-- Whom a new bid of `bidder` displaces. -/
def displaced (bids : List Bid) (bidder : UserId) : Option UserId :=
  ((highestAccepted bids).map Bid.bidder).filter (fun leader => leader ≠ bidder)

section Runs
variable {db : Database} {before : List (Site × SiteEvent)} {c c' : Site} {ev : SiteEvent}
variable {a : AuctionId} {call : Call} {bidderUser : UserId} {amount : Number}

/-- What `place_bid` sends. -/
theorem placeBid_sent (hbook : BidBook (c.dossier a)) {sees : Database → Database → Prop}
    {bid : Bid} (h : (placeBid a bidderUser amount).Exec sees c.world.db (.ok bid) c'.world.db) :
    ∃ notes, c'.world.db.notifications = c.world.db.notifications ++ notes ∧
      notes.map Notification.sent = (displaced (c.dossier a).bids bidderUser).toList.map fun leader =>
        ⟨leader, .outbid, .auction a, auctionLink a⟩ := by
  obtain ⟨value, u, _, _, rfl, _, _, _, hfresh, hwrites⟩ := placeBid_seen h
  obtain ⟨notes, hnotes, hsent⟩ := hwrites.notified
  refine ⟨notes, hnotes, ?_⟩
  rw [hsent, outbidSent_addBid hfresh, hbook.leader, displaced]
  cases highestAccepted (c.dossier a).bids with
  | none => rfl
  | some leader =>
    rw [Option.map_some, Option.filter_some]
    by_cases hown : leader.bidder = bid.bidder
    · simp [hown]
    · simp [hown]

theorem mem_displaced {bids : List Bid} {u : UserId} : displaced bids bidderUser = some u ↔
    ∃ leader, highestAccepted bids = some leader ∧ leader.bidder = u ∧ u ≠ bidderUser := by
  simp only [displaced, Option.filter_eq_some_iff, Option.map_eq_some_iff, decide_eq_true_eq]
  constructor
  · rintro ⟨⟨leader, hleader, hu⟩, hother⟩
    exact ⟨leader, hleader, hu, hother⟩
  · rintro ⟨leader, hleader, hu, hother⟩
    exact ⟨⟨leader, hleader, hu⟩, hother⟩

theorem displaced_none {bids : List Bid} : displaced bids bidderUser = none ↔
    (∀ b ∈ bids, b.status ≠ .accepted) ∨
      ∃ leader, highestAccepted bids = some leader ∧ leader.bidder = bidderUser := by
  rw [← highestAccepted_none, displaced]
  cases highestAccepted bids with
  | none => simp
  | some leader => simp

/-- In every run, a bid that is accepted is announced to the bidder of the bid that a close
just before it would have found highest, and to nobody if there is no such bid or if it is
the bidder's own. -/
theorem outbid_notice (hfresh : Fresh (db.dossier a)) (hrun : SiteRun db before c)
    (hs : engine.step c ev = some c')
    (hc : c.commits ev = some (call, .placeBid a bidderUser amount)) :
    ∃ notes, c'.world.db.notifications = c.world.db.notifications ++ notes ∧ notes.length ≤ 1 ∧
      (∀ n ∈ notes, n.event = .outbid ∧ n.obj = .auction a ∧
        ∃ leader, highestAccepted (c.dossier a).bids = some leader ∧ n.recipient = leader.bidder) ∧
      (notes = [] ↔ (∀ b ∈ (c.dossier a).bids, b.status ≠ .accepted) ∨
        ∃ leader, highestAccepted (c.dossier a).bids = some leader ∧ leader.bidder = bidderUser) := by
  have hbook := run_bidBook hrun hfresh
  obtain ⟨r, hx⟩ := commit_exec (hrun.tracked disciplined) hs hc
  obtain ⟨bid, hplaced⟩ := exec_map_ok hx
  obtain ⟨notes, hnotes, hsent⟩ := placeBid_sent hbook hplaced
  refine ⟨notes, hnotes, ?_, ?_, ?_⟩
  · have hlength := congrArg List.length hsent
    rw [List.length_map, List.length_map] at hlength
    rw [hlength, Option.length_toList]
    split <;> omega
  · intro n hn
    have hmem := List.mem_map_of_mem (f := Notification.sent) hn
    rw [hsent] at hmem
    obtain ⟨u, hu, hsame⟩ := List.mem_map.mp hmem
    obtain ⟨leader, hleader, rfl, _⟩ := mem_displaced.mp (Option.mem_toList.mp hu)
    rw [Notification.sent, Sent.mk.injEq] at hsame
    obtain ⟨hrecipient, hevent, hobj, _⟩ := hsame
    exact ⟨hevent.symm, hobj.symm, leader, hleader, hrecipient.symm⟩
  · rw [← displaced_none, ← List.map_eq_nil_iff (f := Notification.sent), hsent, List.map_eq_nil_iff,
      Option.toList_eq_nil_iff]

end Runs

section Schedules

/-- A bid of `bidderUser` on the auction `a` is about to be committed. -/
def bidCommits (a : AuctionId) (bidderUser : UserId) (c : Site) (ev : SiteEvent) : Bool :=
  match c.commits ev with
  | some (_, .placeBid b u _) => b == a && u == bidderUser
  | _ => false

theorem bidCommits_some {a : AuctionId} {bidderUser : UserId} {c : Site} {ev : SiteEvent}
    (h : bidCommits a bidderUser c ev = true) :
    ∃ call amount, c.commits ev = some (call, .placeBid a bidderUser amount) := by
  unfold bidCommits at h
  split at h
  · next call b u amount hc =>
    rw [Bool.and_eq_true, beq_iff_eq, beq_iff_eq] at h
    obtain ⟨rfl, rfl⟩ := h
    exact ⟨call, amount, hc⟩
  · cases h

/-- The second bidder displaces the first, who alone is told. -/
theorem outbid_notice_sample : ∃ (m : engine.Moment sampleDatabase) (c' : Site),
    engine.step m.now (.act 4) = some c' ∧ ∃ n, n.recipient = 2 ∧ n.event = .outbid ∧
      c'.world.db.notifications = m.now.world.db.notifications ++ [n] := by
  obtain ⟨m, hq⟩ := scheduled_moment engine sampleDatabase
    (biddingOpens ++ [.call 3 (.placeBid 0 2 (.int 700000))] ++ moves 3 17 ++
      [.call 4 (.placeBid 0 3 (.int 800000))] ++ moves 4 19)
    (fun c => (engine.step c (.act 4)).isSome && bidCommits 0 3 c (.act 4) &&
      (highestAccepted (c.dossier 0).bids).any (fun leader => leader.bidder == 2))
    (by decide +kernel)
  simp only [Bool.and_eq_true] at hq
  obtain ⟨⟨hstep, hcommit⟩, hleader⟩ := hq
  obtain ⟨c', hs⟩ := Option.isSome_iff_exists.mp hstep
  obtain ⟨call, amount, hc⟩ := bidCommits_some hcommit
  obtain ⟨leader, hfound, hbidder⟩ := (Option.any_eq_true ..).mp hleader
  rw [beq_iff_eq] at hbidder
  obtain ⟨notes, hnotes, hone, hall, hnone⟩ := outbid_notice sample_fresh m.run hs hc
  refine ⟨m, c', hs, ?_⟩
  cases notes with
  | nil =>
    rcases hnone.mp rfl with hnobody | ⟨other, hother, hown⟩
    · rw [highestAccepted_none.mpr hnobody] at hfound
      cases hfound
    · rw [hfound] at hother
      cases hother
      exact absurd (hbidder.symm.trans hown) (by decide)
  | cons n rest =>
    rw [List.length_cons] at hone
    obtain rfl := List.eq_nil_of_length_eq_zero (by omega : rest.length = 0)
    obtain ⟨hevent, _, other, hother, hrecipient⟩ := hall n (List.mem_singleton_self n)
    rw [hfound] at hother
    cases hother
    exact ⟨n, hrecipient.trans hbidder, hevent, hnotes⟩

end Schedules

end MbararaAuction
