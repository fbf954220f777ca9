import MbararaAuction.Automata.Paths
import MbararaAuction.Machine.BidBook

namespace MbararaAuction
open Automata

/-- The rows of a status log lead from one status to another by allowed transitions. -/
abbrev LogPath : Status → List StatusLog → Status → Prop :=
  Path StatusLog.fromStatus StatusLog.toStatus allowedTransitions

/-- A listing is turned down with a reason. -/
def Explained (rows : List StatusLog) : Prop :=
  ∀ log ∈ rows, log.toStatus = .rejected → log.reason ≠ ""

/-- The log grew by rows that lead from the old status to the new one. -/
def Continues (d d' : Dossier) : Prop :=
  ∃ rows, d'.logs = d.logs ++ rows ∧ LogPath d.row.status rows d'.row.status ∧ Explained rows

section Continues
variable {view : View} {act : Action} {d d' e : Dossier}

/-- What writes neither the status nor the log. -/
theorem Continues.of_same (hlogs : d'.logs = d.logs) (hstatus : d'.row.status = d.row.status) :
    Continues d d' := by
  refine ⟨[], ?_, ?_, fun log h => absurd h List.not_mem_nil⟩
  · rw [hlogs, List.append_nil]
  · rw [hstatus]
    exact .nil

theorem Continues.trans (h : Continues d d') (h' : Continues d' e) : Continues d e := by
  obtain ⟨rows, hlogs, hpath, hwhy⟩ := h
  obtain ⟨rows', hlogs', hpath', hwhy'⟩ := h'
  refine ⟨rows ++ rows', ?_, hpath.append hpath', ?_⟩
  · rw [hlogs', hlogs, List.append_assoc]
  · intro log hlog
    rcases List.mem_append.mp hlog with h | h
    · exact hwhy log h
    · exact hwhy' log h

/-- What leaves the log as it was leaves the status as it was. -/
theorem Continues.same_log (h : Continues d d') (hlogs : d'.logs = d.logs) :
    d'.row.status = d.row.status := by
  obtain ⟨rows, hgrown, hpath, _⟩ := h
  apply hpath.of_nil
  rw [hlogs] at hgrown
  exact List.self_eq_append_right.mp hgrown

/-- A transition writes its row. -/
theorem Continues.entered {toStatus : Status} {actor : Option UserId} {reason : String}
    (allowed : toStatus ∈ allowedTransitions d.row.status)
    (reasoned : toStatus = .rejected → reason ≠ "") :
    Continues d (d.entered toStatus actor reason) := by
  let row : StatusLog := ⟨d.row.status, toStatus, actor, reason⟩
  have hstep : LogPath row.fromStatus [row] row.toStatus := Path.single allowed
  refine ⟨[row], rfl, hstep, ?_⟩
  intro log hlog hr
  rw [List.mem_singleton.mp hlog] at hr ⊢
  exact reasoned hr

/-- The return from a dispute is one transition, or two. -/
theorem continues_returned (x : Dispute) (refund : Bool) (actor : UserId) (reason restored : String)
    (allowed : .closed ∈ allowedTransitions d.row.status) :
    Continues d (d.returned x refund actor reason restored) := by
  have hback : Continues d (d.entered .closed (some actor) reason) := .entered allowed nofun
  unfold Dossier.returned
  split
  · exact hback.trans (.entered (by simp [allowedTransitions]) nofun)
  · exact hback

/-- No move rewrites the log, and every change of the status has its row. -/
theorem Move.continues (h : Move view act d d') : Continues d d' := by
  cases h with
  | aside | reschedule | bid | invalidate | pay | fail | review => exact .of_same rfl rfl
  | enter allowed early still reasoned => exact .entered allowed reasoned
  | activate allowed => exact .entered allowed nofun
  | resume paused time unended =>
    exact .entered (by simp [paused, allowedTransitions]) nofun
  | start scheduled time unended =>
    refine Continues.trans (.of_same rfl rfl) (.entered ?_ nofun)
    simp [scheduled, allowedTransitions]
  | @close d actor reason owed live owes =>
    have hclosed : Continues (d.onRow (.withSale (saleOf d.row (highestAccepted d.bids))))
        ((d.onRow (.withSale (saleOf d.row (highestAccepted d.bids)))).entered .closed actor
          reason) := .entered (by simp [live, allowedTransitions]) nofun
    exact (Continues.trans (.of_same rfl rfl) hclosed).trans (.of_same rfl rfl)
  | settle pending closed =>
    refine Continues.trans (.of_same rfl rfl) (.entered ?_ nofun)
    simp [closed, allowedTransitions]
  | dispute disputable =>
    refine Continues.trans (.of_same rfl rfl) (.entered ?_ nofun)
    simp only [MbararaAuction.disputable, Bool.or_eq_true, beq_iff_eq] at disputable
    rcases disputable with hs | hs <;> simp [hs, allowedTransitions]
  | @resolve d d' x pk refund actor reason restored outcome notes t found active refunds closes =>
    obtain ⟨hrow, _, hlogs, _⟩ := refunds.frame
    rw [← hrow] at closes
    have hreturned := continues_returned x refund actor reason restored closes
    exact ((Continues.of_same hlogs (congrArg Auction.status hrow)).trans hreturned).trans
      (.of_same rfl rfl)

end Continues

/-- The statuses that a listing reaches through approval only. -/
def Status.pastApproval : Status → Bool
  | draft | submitted | rejected | cancelled => false
  | approved | scheduled | live | paused | closed | settled | completed | disputed => true

section Paths
variable {rows : List StatusLog} {s t : Status}

/-- A path from the draft to an auction past approval holds the row that approved it. -/
theorem approved_row (h : LogPath .draft rows t) (ht : t.pastApproval = true) :
    ∃ log ∈ rows, log.fromStatus = .submitted ∧ log.toStatus = .approved := by
  obtain ⟨log, hlog, hstep, hout, hin⟩ :=
    h.enters (Q := fun s => s.pastApproval = true) (by decide) ht
  refine ⟨log, hlog, ?_⟩
  generalize log.fromStatus = x at hstep hout
  generalize log.toStatus = y at hstep hin
  cases x <;> cases y <;> simp_all [allowedTransitions, Status.pastApproval]

theorem terminal_stays (h : LogPath s rows t) (hs : s = .cancelled ∨ s = .rejected ∨ s = .completed) :
    t = s := by
  have hnone : allowedTransitions s = [] := by
    rcases hs with rfl | rfl | rfl <;> rfl
  exact (h.stuck hnone).2

end Paths

end MbararaAuction
