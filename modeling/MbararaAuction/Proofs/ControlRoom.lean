import MbararaAuction.Proofs.ControlForms
import MbararaAuction.Proofs.FixedPoint
import MbararaAuction.Queries.Grouped

namespace MbararaAuction
open Transactions Queries

seal Tx.Exec

section Tables
variable {s : Database} {status : Status} {column : Auction → Time} {p : CountedAuction → Bool}

/-- The row of the auction `a` in a table with bid counts. -/
def Dossier.counted (a : AuctionId) (d : Dossier) : CountedAuction :=
  ⟨a, d.row, (accepted d.bids).length⟩

theorem withBidCounts_where (f : Auction → Bool) : withBidCounts s (auctionsWhere s f) =
    (s.auctionPks.filter fun a => f (s.dossier a).row).map fun a => (s.dossier a).counted a := by
  rw [withBidCounts, auctionsWhere, List.filter_map, List.map_map]
  rfl

theorem orderBy_perm (rows : List CountedAuction) : (orderBy column rows).Perm rows :=
  List.perm_insertionSort ..

theorem orderBy_filter (rows : List CountedAuction) :
    (orderBy column rows).filter p = orderBy column (rows.filter p) := by
  have : Std.Total fun x y : CountedAuction => column x.auction ≤ column y.auction :=
    ⟨fun x y => le_total ..⟩
  have : IsTrans CountedAuction fun x y => column x.auction ≤ column y.auction :=
    ⟨fun x y z => le_trans⟩
  exact insertionSort_filter p

/-- Part of a table of the dashboard. -/
theorem dashboardTable_filter : (dashboardTable s status column).filter p =
    orderBy column ((s.auctionPks.filter fun a =>
      (s.dossier a).row.status == status && p ((s.dossier a).counted a)).map
        fun a => (s.dossier a).counted a) := by
  rw [dashboardTable, orderBy_filter, withBidCounts_where, List.filter_map, List.filter_filter]
  congr 3
  funext a
  exact Bool.and_comm ..

theorem dashboardTable_eq : dashboardTable s status column =
    orderBy column ((s.auctionPks.filter fun a => (s.dossier a).row.status == status).map
      fun a => (s.dossier a).counted a) := by
  rw [dashboardTable, withBidCounts_where]

theorem dashboardTable_countP : (dashboardTable s status column).countP p =
    (s.auctionPks.filter fun a =>
      (s.dossier a).row.status == status && p ((s.dossier a).counted a)).length := by
  rw [List.countP_eq_length_filter, dashboardTable_filter, (orderBy_perm _).length_eq,
    List.length_map]

/-- What is chosen among the live auctions and what is chosen among the scheduled ones. -/
theorem live_scheduled_split {f g r : AuctionId → Bool}
    (heither : ∀ a ∈ s.auctionPks, r a = true ↔ (s.dossier a).row.status = .live ∧ f a = true ∨
      (s.dossier a).row.status = .scheduled ∧ g a = true) :
    (s.auctionPks.filter r).Perm
      ((s.auctionPks.filter fun a => (s.dossier a).row.status == .live && f a) ++
        s.auctionPks.filter fun a => (s.dossier a).row.status == .scheduled && g a) := by
  apply filter_either
  · intro a ha
    rw [Bool.eq_iff_iff, heither a ha]
    simp
  · intro a _ hlive
    rw [Bool.and_eq_true, beq_iff_eq] at hlive
    rw [hlive.1]
    rfl

end Tables

section Swept
variable {t : Time} {actor : Option UserId} {d d' : Dossier} {a : AuctionId}

/-- What a sweep at the time `t` makes of an auction. -/
inductive SweptTo (t : Time) (actor : Option UserId) (d : Dossier) : Dossier → Prop where
  | closed {e : Dossier} (ended : ending t d.row = true) (closed : e.row.status = .closed) :
      SweptTo t actor d e
  | started (due : dueToStart t d.row = true) (running : ¬ d.row.endTime ≤ t) :
      SweptTo t actor d (d.autoStarted actor)
  | kept (early : dueToStart t d.row = false) (open_ : ending t d.row = false) : SweptTo t actor d d

theorem sweptTo_of (hclosed : ending t d.row = true → d'.row.status = .closed)
    (hopen : ending t d.row = false → d' = d.startedDue t actor) : SweptTo t actor d d' := by
  cases hending : ending t d.row with
  | true => exact .closed hending (hclosed hending)
  | false =>
    rw [hopen hending, Dossier.startedDue]
    split
    · next hdue =>
      refine .started hdue fun hover => ?_
      simp [ending, hdue, hover] at hending
    · next hearly => exact .kept (Bool.eq_false_of_not_eq_true hearly) hending

/-- Over at the time `t`. -/
def CountedAuction.ended (t : Time) (x : CountedAuction) : Bool := x.auction.endTime ≤ t

/-- To be started at the time `t`. -/
def CountedAuction.due (t : Time) (x : CountedAuction) : Bool := x.auction.startTime ≤ t

/-- The row once the auction is live. -/
def CountedAuction.nowLive (x : CountedAuction) : CountedAuction :=
  { x with auction := x.auction.withStatus .live }

@[simp] theorem Dossier.counted_ended : (d.counted a).ended t = decide (d.row.endTime ≤ t) := rfl

@[simp] theorem Dossier.counted_due : (d.counted a).due t = decide (d.row.startTime ≤ t) := rfl

theorem ending_iff : ending t d.row = true ↔
    (d.row.status = .live ∨ d.row.status = .scheduled ∧ d.row.startTime ≤ t) ∧
      d.row.endTime ≤ t := by
  simp [ending, dueToStart]

/-- What is still scheduled is what was not due, as it was. -/
theorem SweptTo.scheduled (h : SweptTo t actor d d') :
    (d'.row.status = .scheduled ↔ d.row.status = .scheduled ∧ ¬ d.row.startTime ≤ t) ∧
      (d'.row.status = .scheduled → d' = d) := by
  cases h with
  | closed ended closed =>
    rw [ending_iff] at ended
    rw [closed]
    refine ⟨iff_of_false nofun fun h => ?_, nofun⟩
    rcases ended.1 with hlive | hdue
    · rw [hlive] at h
      cases h.1
    · exact h.2 hdue.2
  | started due =>
    rw [dueToStart_iff] at due
    exact ⟨iff_of_false nofun fun h => h.2 due.2, nofun⟩
  | kept early =>
    refine ⟨⟨fun hs => ⟨hs, fun hdue => ?_⟩, And.left⟩, fun _ => rfl⟩
    rw [dueToStart_iff.mpr ⟨hs, hdue⟩] at early
    cases early

theorem SweptTo.paused (h : SweptTo t actor d d') :
    (d'.row.status = .paused ↔ d.row.status = .paused) ∧ (d'.row.status = .paused → d' = d) := by
  cases h with
  | closed ended closed =>
    rw [ending_iff] at ended
    rw [closed]
    refine ⟨iff_of_false nofun fun h => ?_, nofun⟩
    rw [h] at ended
    simp at ended
  | started due =>
    rw [dueToStart_iff] at due
    refine ⟨iff_of_false nofun fun h => ?_, nofun⟩
    rw [h] at due
    cases due.1
  | kept => exact ⟨Iff.rfl, fun _ => rfl⟩

/-- What is live is what was live and is not over, as it was, and what was started. -/
theorem SweptTo.live (h : SweptTo t actor d d') :
    (d'.row.status = .live ↔ d.row.status = .live ∧ ¬ d.row.endTime ≤ t ∨
      (d.row.status = .scheduled ∧ d.row.startTime ≤ t) ∧ ¬ d.row.endTime ≤ t) ∧
    (d'.row.status = .live → d.row.status = .live → d' = d) ∧
    (d'.row.status = .live → d.row.status = .scheduled → d' = d.autoStarted actor) := by
  cases h with
  | closed ended closed =>
    rw [ending_iff] at ended
    rw [closed]
    refine ⟨iff_of_false nofun fun h => ?_, nofun, nofun⟩
    rcases h with h | h <;> exact h.2 ended.2
  | started due running =>
    rw [dueToStart_iff] at due
    refine ⟨iff_of_true rfl (.inr ⟨due, running⟩), fun _ h => ?_, fun _ _ => rfl⟩
    rw [h] at due
    cases due.1
  | kept early open_ =>
    have hon : d.row.status = .live → ¬ d.row.endTime ≤ t := by
      intro hlive hover
      rw [ending_iff.mpr ⟨.inl hlive, hover⟩] at open_
      cases open_
    refine ⟨⟨fun h => .inl ⟨h, hon h⟩, fun h => ?_⟩, fun _ _ => rfl, fun h hs => ?_⟩
    · rcases h with h | h
      · exact h.1
      · rw [dueToStart_iff.mpr h.1] at early
        cases early
    · rw [h] at hs
      cases hs

end Swept

section Dashboard
variable {s s' : Database} {actor : Option UserId} {column : Auction → Time}

/-- Every auction of `s'` is what a sweep makes of it in `s`. -/
structure SweptFrom (actor : Option UserId) (s s' : Database) : Prop where
  clock : s'.clock = s.clock
  pks : s'.auctionPks = s.auctionPks
  each : ∀ a ∈ s.auctionPks, SweptTo s.clock actor (s.dossier a) (s'.dossier a)

variable (h : SweptFrom actor s s')
include h

theorem SweptFrom.scheduled : dashboardTable s' .scheduled column =
    (dashboardTable s .scheduled column).filter fun x => !x.due s.clock := by
  rw [dashboardTable_filter, dashboardTable_eq, h.pks]
  apply congrArg
  apply select_congr
  · intro a ha
    rw [beq_iff_eq, (h.each a ha).scheduled.1]
    simp
  · intro a ha hs
    rw [(h.each a ha).scheduled.2 (beq_iff_eq.mp hs)]

theorem SweptFrom.paused : dashboardTable s' .paused column = dashboardTable s .paused column := by
  rw [dashboardTable_eq, dashboardTable_eq, h.pks]
  apply congrArg
  apply select_congr
  · intro a ha
    rw [beq_iff_eq, beq_iff_eq, (h.each a ha).paused.1]
  · intro a ha hs
    rw [(h.each a ha).paused.2 (beq_iff_eq.mp hs)]

theorem SweptFrom.live (started : Auction → Time) : (dashboardTable s' .live column).Perm
    (((dashboardTable s .live column).filter fun x => !x.ended s.clock) ++
      ((dashboardTable s .scheduled started).filter fun x => x.due s.clock && !x.ended s.clock).map
        CountedAuction.nowLive) := by
  -- The auctions that are live now, in two parts; each part then has the rows it should.
  have hlive : (s.auctionPks.filter fun a => (s'.dossier a).row.status == .live).Perm
      ((s.auctionPks.filter fun a => (s.dossier a).row.status == .live &&
          !((s.dossier a).counted a).ended s.clock) ++
        s.auctionPks.filter fun a => (s.dossier a).row.status == .scheduled &&
          (((s.dossier a).counted a).due s.clock && !((s.dossier a).counted a).ended s.clock)) := by
    apply live_scheduled_split
    intro a ha
    rw [beq_iff_eq, (h.each a ha).live.1]
    simp [and_assoc]
  rw [dashboardTable_eq, dashboardTable_filter, dashboardTable_filter, h.pks]
  apply (orderBy_perm _).trans
  apply (hlive.map _).trans
  rw [List.map_append]
  apply List.Perm.append
  · apply List.Perm.trans _ (orderBy_perm _).symm
    apply List.Perm.of_eq
    apply select_congr (fun a _ => Iff.rfl)
    intro a ha hon
    simp only [Bool.and_eq_true, beq_iff_eq, Dossier.counted_ended, Bool.not_eq_true',
      decide_eq_false_iff_not] at hon
    rw [(h.each a ha).live.2.1 ((h.each a ha).live.1.mpr (.inl hon)) hon.1]
  · apply List.Perm.trans _ ((orderBy_perm _).map _).symm
    rw [List.map_map]
    apply List.Perm.of_eq
    apply select_congr (fun a _ => Iff.rfl)
    intro a ha hon
    simp only [Bool.and_eq_true, beq_iff_eq, Dossier.counted_ended, Dossier.counted_due,
      Bool.not_eq_true', decide_eq_false_iff_not, decide_eq_true_eq] at hon
    rw [(h.each a ha).live.2.2 ((h.each a ha).live.1.mpr (.inr ⟨⟨hon.1, hon.2.1⟩, hon.2.2⟩)) hon.1]
    rfl

end Dashboard

section Sweep
variable {parseDatetime : String → Option Time} {w : World Database Nat} {u : UserId}

/-- Back on the dashboard, with what the sweep has done. -/
def sweepAnswer (started closed : Nat) : Answer :=
  .redirect .controlDashboard
    [⟨.success, s!"Sweep complete: {started} auction(s) started, {closed} closed."⟩]

theorem posted_sweep {n k : Nat} {w' : World Database Nat} (hstaff : StaffMember w.db u)
    (hrun : (engine.body (.sweepDue (some u))).run engine w = (.ok (.counts n k), w')) :
    posted parseDatetime w u .sweep = (.ok (.inr (sweepAnswer n k)), w') := by
  have hview : (sweepView (some u)).run engine w = (.ok (sweepAnswer n k), w') := by
    simp only [sweepView, staffOrOfficerRequired, testRequired, Script.run,
      requestUser_eq hstaff.user, hstaff.staff, tryCall, hrun, ↓reduceIte]
    rfl
  rw [posted_run]
  simp only [Post.view, hview]
  rfl

/-- How many auctions a sweep at the time `t` closes: what is live and over, and what it
starts in vain. -/
def ControlDashboard.toClose (t : Time) (page : ControlDashboard) : Nat :=
  page.overdueClose + page.scheduled.countP fun x => x.due t && x.ended t

theorem ending_length (s : Database) :
    (s.auctionPks.filter fun a => ending s.clock (s.dossier a).row).length =
      (controlDashboard s).toClose s.clock := by
  have hsplit : (s.auctionPks.filter fun a => ending s.clock (s.dossier a).row).Perm
      ((s.auctionPks.filter fun a => (s.dossier a).row.status == .live &&
          ((s.dossier a).counted a).ended s.clock) ++
        s.auctionPks.filter fun a => (s.dossier a).row.status == .scheduled &&
          (((s.dossier a).counted a).due s.clock && ((s.dossier a).counted a).ended s.clock)) := by
    apply live_scheduled_split
    intro a _
    rw [ending_iff]
    simp [or_and_right, and_assoc]
  rw [hsplit.length_eq, List.length_append]
  exact congrArg₂ (· + ·) (dashboardTable_countP (p := CountedAuction.ended s.clock)).symm
    (dashboardTable_countP (p := fun x => x.due s.clock && x.ended s.clock)).symm

/-- What a sweep starts is what the dashboard shows as overdue. -/
theorem dueToStart_length (s : Database) :
    (s.auctionPks.filter fun a => dueToStart s.clock (s.dossier a).row).length =
      (controlDashboard s).overdueStart :=
  (dashboardTable_countP (p := CountedAuction.due s.clock)).symm

/-- The dashboard says what a sweep will do, and after it what it has done. -/
structure Cleared (t : Time) (before after : ControlDashboard) : Prop where
  noneToStart : after.overdueStart = 0
  noneToClose : after.overdueClose = 0
  scheduled : after.scheduled = before.scheduled.filter fun x => !x.due t
  paused : after.paused = before.paused
  live : after.live.Perm ((before.live.filter fun x => !x.ended t) ++
    (before.scheduled.filter fun x => x.due t && !x.ended t).map CountedAuction.nowLive)

theorem SweptFrom.cleared {actor : Option UserId} {s s' : Database} (h : SweptFrom actor s s') :
    Cleared s.clock (controlDashboard s) (controlDashboard s') where
  noneToStart := by
    apply List.countP_eq_zero.mpr
    intro x hx hdue
    rw [h.scheduled, List.mem_filter] at hx
    rw [h.clock] at hdue
    simp [CountedAuction.due, of_decide_eq_true hdue] at hx
  noneToClose := by
    apply List.countP_eq_zero.mpr
    intro x hx hended
    rw [h.clock] at hended
    have hended := of_decide_eq_true hended
    rcases List.mem_append.mp ((h.live Auction.startTime).mem_iff.mp hx) with hon | hstarted
    · rw [List.mem_filter] at hon
      simp [CountedAuction.ended, hended] at hon
    · obtain ⟨y, hy, rfl⟩ := List.mem_map.mp hstarted
      rw [List.mem_filter] at hy
      have hended : y.auction.endTime ≤ s.clock := hended
      simp [CountedAuction.ended, hended] at hy
  scheduled := h.scheduled
  paused := h.paused
  live := h.live Auction.startTime

end Sweep

end MbararaAuction
