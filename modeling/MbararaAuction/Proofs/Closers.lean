import MbararaAuction.Proofs.Grounded

namespace MbararaAuction
open Transactions

seal Tx.Exec

/-- The event commits a bid on the auction, or a new schedule for it. -/
def Extends (a : AuctionId) (c : Site) (ev : SiteEvent) : Prop :=
  ∃ call l, c.commits ev = some (call, l) ∧
    ((∃ bidderUser amount, l = .placeBid a bidderUser amount) ∨
      ∃ actor reason startTime endTime, l = .reschedule a actor reason startTime endTime)

/-- After the due query had returned `auction`, a bid or a new schedule was
committed that put the end where it is now; and that is still ahead. -/
def PutOff {db : Database} (m : engine.Moment db) (auction : LoadedAuction) : Prop :=
  ∃ (y z : engine.Moment db) (ev : SiteEvent) (c : Site) (taken : engine.step z.now ev = some c),
    QueriedAt y auction ∧ y.Leads z ∧ (z.next taken).Leads m ∧ Extends auction.pk z.now ev ∧
    (c.dossier auction.pk).row.endTime = (m.now.dossier auction.pk).row.endTime ∧
    m.rows.clock < (c.dossier auction.pk).row.endTime

/-- Only bids and new schedules move the end of an auction. -/
theorem Move.endTime {view : View} {act : Action} {d d' : Dossier} (hm : Move view act d d')
    (hbid : act ≠ .bid) (hreschedule : act ≠ .reschedule) : d'.row.endTime = d.row.endTime := by
  cases hm with
  | bid => exact absurd rfl hbid
  | reschedule => exact absurd rfl hreschedule
  | resolve found active refunds closes =>
    obtain ⟨hrow, _, _, _⟩ := refunds.frame
    rw [Dossier.onDispute_row, returned_row, hrow]
    rfl
  | _ => rfl

theorem extends_of_moved {db : Database} {z : engine.Moment db} {ev : SiteEvent} {c : Site}
    {a : AuctionId} (taken : engine.step z.now ev = some c)
    (hmoved : (c.dossier a).row.endTime ≠ (z.now.dossier a).row.endTime) :
    Extends a z.now ev := by
  rcases step_dossier z.run taken a with ⟨hsame, _⟩ | ⟨call, l, hc, ht, hm⟩
  · rw [hsame] at hmoved
    exact absurd rfl hmoved
  · refine ⟨call, l, hc, ?_⟩
    have hact : l.action = .bid ∨ l.action = .reschedule := by
      by_contra hneither
      rw [not_or] at hneither
      exact hmoved (hm.endTime hneither.1 hneither.2)
    cases l <;> simp_all [ServiceTx.target, ServiceTx.action]

/-- When an automatic closer commits a close, the end of the auction has come,
unless a bid or a new schedule put it off after the closer's query. -/
theorem automatic_close_in_time_iff {db : Database} {m : engine.Moment db} {ev : SiteEvent}
    {call : Call} {auction : LoadedAuction} {actor : Option UserId} (hauto : call.automatic = true)
    (hcommit : m.now.commits ev = some (call, .closeAuction auction actor)) :
    (m.now.dossier auction.pk).row.endTime ≤ m.rows.clock ↔ ¬ PutOff m auction := by
  constructor
  · rintro hcome ⟨y, z, ev', c, taken, _, _, _, _, hend, hahead⟩
    rw [hend] at hahead
    exact absurd hcome (not_le.mpr hahead)
  · intro hnot
    by_contra hlate
    have hahead := not_le.mp hlate
    obtain ⟨y, hy, hquery⟩ := closer_queried hauto hcommit
    have hthen : (y.now.dossier auction.pk).row.endTime ≤ m.rows.clock := by
      rw [hquery.1]
      exact le_trans hquery.2.2 (leads_clock hy)
    obtain ⟨z, ev', c, taken, hz, hm, hbefore, hafter⟩ :=
      hy.enters (Q := fun x => (x.dossier auction.pk).row.endTime =
        (m.now.dossier auction.pk).row.endTime) (ne_of_lt (lt_of_le_of_lt hthen hahead)) rfl
    refine hnot ⟨y, z, ev', c, taken, hquery, hz, hm, extends_of_moved taken ?_, hafter, ?_⟩
    · rw [hafter]
      exact fun he => hbefore he.symm
    · rw [hafter]
      exact hahead

section Schedules

/-- A timer's close of the auction `a` is about to be committed. -/
def closerCommits (a : AuctionId) (c : Site) (ev : SiteEvent) : Bool :=
  match c.commits ev with
  | some (call, .closeAuction auction _) => call.automatic && auction.pk == a
  | _ => false

theorem closerCommits_some {a : AuctionId} {c : Site} {ev : SiteEvent}
    (h : closerCommits a c ev = true) : ∃ call auction actor, call.automatic = true ∧
      auction.pk = a ∧ c.commits ev = some (call, .closeAuction auction actor) := by
  unfold closerCommits at h
  split at h
  · rename_i call auction actor hc
    simp only [Bool.and_eq_true, beq_iff_eq] at h
    exact ⟨call, auction, actor, h.1, h.2, hc⟩
  · cases h

/-- The end of the sample auction is a moment away. -/
def untilTheEnd : List SiteEvent := biddingOpens ++ [.outside (.tick 2999999999)]

/-- A bid that holds the lock while the closer makes its query. -/
def lateBid : List SiteEvent :=
  [.call 3 (.placeBid 0 2 (.int 700000))] ++ moves 3 15 ++ [.outside (.tick 1),
    .call 4 .closeEndedAuctions] ++ moves 4 3 ++ moves 3 3 ++ moves 4 21

/-- The bid extends the auction by five minutes, and the closer closes it at once. -/
theorem extended_auction_cut_short : ¬ ∀ (db : Database) (m : engine.Moment db) (ev : SiteEvent)
    (call : Call) (auction : LoadedAuction) (actor : Option UserId),
    Fresh (db.dossier auction.pk) → call.automatic = true →
    m.now.commits ev = some (call, .closeAuction auction actor) →
    (m.now.dossier auction.pk).row.endTime ≤ m.rows.clock := by
  intro hall
  obtain ⟨m, hq⟩ := scheduled_moment engine sampleDatabase (untilTheEnd ++ lateBid)
    (fun c => closerCommits 0 c (.act 4) && c.world.db.clock < (c.dossier 0).row.endTime)
    (by decide +kernel)
  simp only [Bool.and_eq_true, decide_eq_true_eq] at hq
  obtain ⟨hcloser, hahead⟩ := hq
  obtain ⟨call, auction, actor, hauto, hpk, hcommit⟩ := closerCommits_some hcloser
  have hcome := hall sampleDatabase m (.act 4) call auction actor sample_fresh hauto
    hcommit
  rw [hpk] at hcome
  exact absurd hcome (not_le.mpr hahead)

/-- Without the bid the closer is on time. -/
theorem automatic_close_in_time_sample : ∃ (m : engine.Moment sampleDatabase) (call : Call)
    (auction : LoadedAuction) (actor : Option UserId),
    m.now.commits (.act 4 : SiteEvent) = some (call, .closeAuction auction actor) ∧
      ¬ PutOff m auction := by
  obtain ⟨m, hq⟩ := scheduled_moment engine sampleDatabase
    (untilTheEnd ++ [.outside (.tick 1), .call 4 .closeEndedAuctions] ++ moves 4 17)
    (fun c => closerCommits 0 c (.act 4) && (c.dossier 0).row.endTime ≤ c.world.db.clock)
    (by decide +kernel)
  simp only [Bool.and_eq_true, decide_eq_true_eq] at hq
  obtain ⟨hcloser, hcome⟩ := hq
  obtain ⟨call, auction, actor, hauto, hpk, hcommit⟩ := closerCommits_some hcloser
  rw [← hpk] at hcome
  exact ⟨m, call, auction, actor, hcommit,
    (automatic_close_in_time_iff hauto hcommit).mp hcome⟩

end Schedules

end MbararaAuction
