import MbararaAuction.Machine.BidBook
import MbararaAuction.Machine.Schedule
import MbararaAuction.Proofs.Histories
import MbararaAuction.Proofs.Tasks

namespace MbararaAuction
open Transactions

seal Tx.Exec

/-- The calls of the timers that start auctions. -/
def Call.starts : Call → Bool
  | sweepDue _ | activateScheduledAuctions => true
  | _ => false

section Grounded
variable {db : Database} {call : Call} {m : engine.Moment db} {a : AuctionId}

/-- At the moment `y` the due query of a timer returns the auction `a`. -/
def DueAt (y : engine.Moment db) (a : AuctionId) : Prop :=
  (y.now.dossier a).row.status = .scheduled ∧ (y.now.dossier a).row.startTime ≤ y.rows.clock

/-- What a timer activates was due when it asked for it. -/
def StartGrounded (call : Call) (l : ServiceTx) (m : engine.Moment db) : Prop :=
  match l with
  | .activate a _ => call.starts = true → ∃ y : engine.Moment db, y.Leads m ∧ DueAt y a
  | _ => True

/-- The loop of a timer after its due query. -/
theorem starting_grounds {actor : Option UserId} {catches : PyError → Bool}
    {next : Nat → ServiceTask} {t : Time} (ht : t ≤ m.rows.clock)
    (hnext : ∀ n (m' : engine.Moment db), m.Leads m' →
      (next n).Issues Moment.rows Moment.Leads (StartGrounded call) m') :
    (activateEach actor catches (auctionsWhere m.rows (dueToStart t)) 0 next).Issues Moment.rows
      Moment.Leads (StartGrounded call) m := by
  apply activateEach_issues Moment.Leads.refl fun _ _ _ => Moment.Leads.trans
  · intro auction ha y hy _ _ m' hm' _
    refine ⟨m, hy.trans hm', ?_⟩
    obtain ⟨_, hrow, hdue⟩ := mem_auctionsWhere.mp ha
    rw [← hrow, dueToStart_iff] at hdue
    exact ⟨hdue.1, le_trans hdue.2 ht⟩
  · exact hnext

theorem body_start_grounds (call : Call) (m : engine.Moment db) :
    (engine.body call).Issues Moment.rows Moment.Leads (StartGrounded call) m := by
  cases call with
  | sweepDue actor =>
    intro m₁ _ m₂ hm₂
    apply starting_grounds (leads_clock hm₂)
    intro n m₃ _ m₄ _
    exact closeEach_issues Moment.Leads.refl (fun _ _ _ => Moment.Leads.trans) _ 0
      (fun _ _ _ _ => trivial) fun _ _ _ => trivial
  | activateScheduledAuctions =>
    intro m₁ _ m₂ hm₂
    exact starting_grounds (leads_clock hm₂) fun _ _ _ => trivial
  | _ =>
    apply Task.Issues.of_all
    intro l m
    cases l with
    | activate => exact fun hauto => (by cases hauto)
    | _ => trivial

end Grounded

/-- The event commits a new schedule for the auction. -/
def Reschedules (a : AuctionId) (c : Site) (ev : SiteEvent) : Prop :=
  ∃ call actor reason startTime endTime,
    c.commits ev = some (call, .reschedule a actor reason startTime endTime)

/-- After the due query had returned the auction, a new schedule was committed that
put its start where it is now; and that is still ahead. -/
def Postponed {db : Database} (m : engine.Moment db) (a : AuctionId) : Prop :=
  ∃ (y z : engine.Moment db) (ev : SiteEvent) (c : Site) (taken : engine.step z.now ev = some c),
    DueAt y a ∧ y.Leads z ∧ (z.next taken).Leads m ∧ Reschedules a z.now ev ∧
    (c.dossier a).row.startTime = (m.now.dossier a).row.startTime ∧
    m.rows.clock < (c.dossier a).row.startTime

section Runs
variable {db : Database} {m m' : engine.Moment db} {a : AuctionId}

/-- A started auction is never scheduled again. -/
theorem leads_past_start (h : m.Leads m')
    (hpast : (m.now.dossier a).row.status.beforeStart = false) :
    (m'.now.dossier a).row.status.beforeStart = false :=
  leads_dossier (I := fun _ => True)
    (R := fun d d' => d.row.status.beforeStart = false → d'.row.status.beforeStart = false) h
    (fun _ => id) (fun h h' => h' ∘ h) (fun _ => trivial) (fun _ _ _ _ hm => hm.past_start) hpast

/-- The start of an auction that is not started moves by new schedules only. -/
theorem reschedules_of_moved {z : engine.Moment db} {ev : SiteEvent} {c : Site}
    (taken : engine.step z.now ev = some c)
    (hmoved : (c.dossier a).row.startTime ≠ (z.now.dossier a).row.startTime)
    (hbefore : (c.dossier a).row.status.beforeStart = true) : Reschedules a z.now ev := by
  rcases step_dossier z.run taken a with ⟨hsame, _⟩ | ⟨call, l, hc, ht, hm⟩
  · rw [hsame] at hmoved
    exact absurd rfl hmoved
  · rcases hm.startTime with hkept | hact | hpast
    · exact absurd hkept hmoved
    · cases l <;> simp only [ServiceTx.action, reduceCtorEq] at hact
      cases ht
      exact ⟨call, _, _, _, _, hc⟩
    · rw [hpast] at hbefore
      cases hbefore

/-- When a timer commits the start of a scheduled auction, its start has come, unless
a new schedule postponed it after the timer's query. -/
theorem automatic_start_in_time_iff {ev : SiteEvent} {call : Call} {actor : Option UserId}
    (hauto : call.starts = true) (hcommit : m.now.commits ev = some (call, .activate a actor))
    (hscheduled : (m.now.dossier a).row.status = .scheduled) :
    (m.now.dossier a).row.startTime ≤ m.rows.clock ↔ ¬ Postponed m a := by
  constructor
  · rintro hcome ⟨y, z, ev', c, taken, _, _, _, _, hstart, hahead⟩
    rw [hstart] at hahead
    exact absurd hcome (not_le.mpr hahead)
  · intro hnot
    by_contra hearly
    have hahead := not_le.mp hearly
    obtain ⟨y, hy, hdue⟩ := Run.issued body_start_grounds m hcommit hauto
    have hthen : (y.now.dossier a).row.startTime ≤ m.rows.clock :=
      le_trans hdue.2 (leads_clock hy)
    obtain ⟨z, ev', c, taken, hz, hm, hbefore, hafter⟩ :=
      hy.enters (Q := fun x => (x.dossier a).row.startTime =
        (m.now.dossier a).row.startTime) (ne_of_lt (lt_of_le_of_lt hthen hahead)) rfl
    have hmoved : (c.dossier a).row.startTime ≠ (z.now.dossier a).row.startTime := by
      rw [hafter]
      exact fun he => hbefore he.symm
    have hunstarted : (c.dossier a).row.status.beforeStart = true := by
      by_contra hpast
      have hlast := leads_past_start hm (Bool.eq_false_of_not_eq_true hpast)
      rw [hscheduled] at hlast
      cases hlast
    refine hnot ⟨y, z, ev', c, taken, hdue, hz, hm,
      reschedules_of_moved taken hmoved hunstarted, hafter, ?_⟩
    rw [hafter]
    exact hahead

end Runs

section Schedules

/-- A timer's start of the scheduled auction `a` is about to be committed. -/
def starterCommits (a : AuctionId) (c : Site) (ev : SiteEvent) : Bool :=
  (c.dossier a).row.status == .scheduled &&
  match c.commits ev with
  | some (call, .activate b _) => call.starts && b == a
  | _ => false

theorem starterCommits_some {a : AuctionId} {c : Site} {ev : SiteEvent}
    (h : starterCommits a c ev = true) : (c.dossier a).row.status = .scheduled ∧
      ∃ call actor, call.starts = true ∧ c.commits ev = some (call, .activate a actor) := by
  unfold starterCommits at h
  rw [Bool.and_eq_true, beq_iff_eq] at h
  obtain ⟨hscheduled, h⟩ := h
  refine ⟨hscheduled, ?_⟩
  split at h
  · rename_i call b actor hc
    rw [Bool.and_eq_true, beq_iff_eq] at h
    obtain ⟨hauto, rfl⟩ := h
    exact ⟨call, actor, hauto, hc⟩
  · cases h

/-- The sample listing is approved, and the command that starts auctions has made
its query. -/
def startQueried : List SiteEvent :=
  [.call 0 (.submitForReview 0 1)] ++ moves 0 8 ++ [.call 1 (.approve 0 0 "")] ++ moves 1 18 ++
    [.call 2 .activateScheduledAuctions] ++ moves 2 2

/-- The auction is postponed by twenty minutes, and the timer opens it at once. -/
theorem postponed_auction_opened : ¬ ∀ (db : Database) (a : AuctionId) (m : engine.Moment db)
    (ev : SiteEvent) (call : Call) (actor : Option UserId),
    Fresh (db.dossier a) → call.starts = true →
    m.now.commits ev = some (call, .activate a actor) →
    (m.now.dossier a).row.status = .scheduled →
    (m.now.dossier a).row.startTime ≤ m.rows.clock := by
  intro hall
  obtain ⟨m, hq⟩ := scheduled_moment engine sampleDatabase
    (startQueried ++ [.call 3 (.reschedule 0 0 "Rain" (some (minutes 30)) none)] ++ moves 3 12 ++
      moves 2 11)
    (fun c => starterCommits 0 c (.act 2) && c.world.db.clock < (c.dossier 0).row.startTime)
    (by decide +kernel)
  simp only [Bool.and_eq_true, decide_eq_true_eq] at hq
  obtain ⟨hstarter, hahead⟩ := hq
  obtain ⟨hscheduled, call, actor, hauto, hcommit⟩ := starterCommits_some hstarter
  have hcome := hall sampleDatabase 0 m (.act 2) call actor sample_fresh hauto hcommit hscheduled
  exact absurd hcome (not_le.mpr hahead)

/-- Undisturbed, the timer is on time. -/
theorem automatic_start_in_time_sample : ∃ (m : engine.Moment sampleDatabase) (call : Call)
    (actor : Option UserId), m.now.commits (.act 2 : SiteEvent) = some (call, .activate 0 actor) ∧
      ¬ Postponed m 0 := by
  obtain ⟨m, hq⟩ := scheduled_moment engine sampleDatabase (startQueried ++ moves 2 11)
    (fun c => starterCommits 0 c (.act 2) && (c.dossier 0).row.startTime ≤ c.world.db.clock)
    (by decide +kernel)
  simp only [Bool.and_eq_true, decide_eq_true_eq] at hq
  obtain ⟨hstarter, hcome⟩ := hq
  obtain ⟨hscheduled, call, actor, hauto, hcommit⟩ := starterCommits_some hstarter
  exact ⟨m, call, actor, hcommit,
    (automatic_start_in_time_iff hauto hcommit hscheduled).mp hcome⟩

end Schedules

end MbararaAuction
