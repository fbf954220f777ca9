import MbararaAuction.Machine.DisputeBook

namespace MbararaAuction

/-- The statuses of an auction that has not been started. -/
def Status.beforeStart : Status → Bool
  | draft | submitted | approved | scheduled => true
  | rejected | live | paused | closed | settled | completed | cancelled | disputed => false

/-- The statuses of an auction that runs, or is halted. -/
def Status.running : Status → Bool
  | live | paused => true
  | draft | submitted | approved | rejected | scheduled | closed | settled | completed | cancelled
  | disputed => false

section Schedule
variable {view : View} {act : Action} {d d' : Dossier}

theorem unstarted_source {s t : Status} (h : t ∈ allowedTransitions s) (ht : t.beforeStart = true) :
    s.beforeStart = true := by
  cases s <;> cases t <;> simp_all [allowedTransitions, Status.beforeStart]

/-- Nothing leads back to before the start. -/
theorem Move.past_start (hm : Move view act d d') (hpast : d.row.status.beforeStart = false) :
    d'.row.status.beforeStart = false := by
  cases hm with
  | enter allowed =>
    by_contra hback
    rw [unstarted_source allowed (Bool.eq_true_of_not_eq_false hback)] at hpast
    cases hpast
  | resolve =>
    rw [Dossier.onDispute_row, returned_row, Auction.withStatus_status]
    split <;> rfl
  | activate | resume | start | close | settle | dispute => rfl
  | _ => exact hpast

/-- Only a new schedule and a start by hand move the start of an auction. -/
theorem Move.startTime (hm : Move view act d d') :
    d'.row.startTime = d.row.startTime ∨ act = .reschedule ∨ d'.row.status.beforeStart = false := by
  cases hm with
  | reschedule => exact .inr (.inl rfl)
  | start => exact .inr (.inr rfl)
  | resolve found active refunds closes =>
    rw [Dossier.onDispute_row, returned_row, refunds.frame.1]
    exact .inl rfl
  | _ => exact .inl rfl

/-- Only a start or a resumption makes an auction live. -/
theorem Move.enters_live (hm : Move view act d d') (hbefore : d.row.status ≠ .live)
    (hafter : d'.row.status = .live) : act = .enter .live := by
  cases hm with
  | enter _ _ still => exact absurd hafter still
  | activate | resume | start => rfl
  | close | settle | dispute => cases hafter
  | resolve =>
    rw [Dossier.onDispute_row, returned_row, Auction.withStatus_status] at hafter
    split at hafter <;> cases hafter
  | _ => exact absurd hafter hbefore

/-- An auction that runs already keeps its start. -/
theorem Move.still_running (hm : Move view act d d') (hact : act ≠ .enter .live)
    (hafter : d'.row.status.running = true) :
    d.row.status.running = true ∧ d'.row.startTime = d.row.startTime := by
  cases hm with
  | @enter _ toStatus _ _ allowed _ still =>
    refine ⟨?_, rfl⟩
    rw [Dossier.entered_row, Auction.withStatus_status] at hafter
    generalize d.row.status = status at allowed
    cases toStatus <;> simp only [Status.running, Bool.false_eq_true] at hafter
    case live => exact absurd rfl still
    case paused => cases status <;> simp_all [allowedTransitions, Status.running]
  | activate | resume | start => exact absurd rfl hact
  | reschedule _ started =>
    refine ⟨hafter, started fun hs => ?_⟩
    rw [Dossier.onRow_row, Auction.withTimes_status, hs] at hafter
    cases hafter
  | close | settle | dispute => cases hafter
  | resolve =>
    rw [Dossier.onDispute_row, returned_row, Auction.withStatus_status] at hafter
    split at hafter <;> cases hafter
  | _ => exact ⟨hafter, rfl⟩

/-- An auction that was started keeps its start. -/
theorem Move.start_kept (hm : Move view act d d') (hpast : d.row.status.beforeStart = false) :
    d'.row.startTime = d.row.startTime := by
  cases hm with
  | start scheduled =>
    rw [scheduled] at hpast
    cases hpast
  | reschedule _ started =>
    refine started fun hs => ?_
    rw [hs] at hpast
    cases hpast
  | resolve found active refunds closes =>
    rw [Dossier.onDispute_row, returned_row, refunds.frame.1]
    rfl
  | _ => rfl

/-- Only bids and new schedules move the end of an auction. -/
theorem Move.end_kept (hm : Move view act d d') (hbid : act ≠ .bid) (hplan : act ≠ .reschedule) :
    d'.row.endTime = d.row.endTime := by
  cases hm with
  | bid => exact absurd rfl hbid
  | reschedule => exact absurd rfl hplan
  | resolve found active refunds closes =>
    rw [Dossier.onDispute_row, returned_row, refunds.frame.1]
    rfl
  | _ => rfl

theorem le_extendedEnd (row : Auction) (t : Time) : row.endTime ≤ extendedEnd row t := by
  unfold extendedEnd
  dsimp only
  split <;> lia

/-- Every move keeps the start before the end. -/
theorem Move.ordered (hm : Move view act d d') (hordered : d.row.startTime < d.row.endTime) :
    d'.row.startTime < d'.row.endTime := by
  cases hm with
  | start _ _ unended =>
    simp only [Dossier.entered_row, Dossier.onRow_row, Auction.withStatus_startTime,
      Auction.withStatus_endTime, Auction.withStart_startTime, Auction.withStart_endTime]
    exact lt_of_le_of_lt (min_le_right ..) unended
  | reschedule _ _ _ ordered => exact ordered
  | bid => exact lt_of_lt_of_le hordered (le_extendedEnd ..)
  | resolve found active refunds closes =>
    rw [Dossier.onDispute_row, returned_row, refunds.frame.1]
    exact hordered
  | _ => exact hordered

end Schedule

end MbararaAuction
