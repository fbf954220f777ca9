import MbararaAuction.Machine.BidBook
import MbararaAuction.Proofs.Histories
import MbararaAuction.Proofs.Tasks
import MbararaAuction.Transactions.Failures

namespace MbararaAuction
open Transactions Locking

seal Tx.Exec

section Moves
variable {view : View} {act : Action} {d d' : Dossier}

theorem Move.enters_approved (hm : Move view act d d') (hbefore : d.row.status ≠ .approved)
    (hafter : d'.row.status = .approved) : act = .enter .approved := by
  cases hm with
  | enter =>
    rw [Dossier.entered_row, Auction.withStatus_status] at hafter
    rw [hafter]
  | activate | resume | start | close | settle | dispute => cases hafter
  | resolve =>
    rw [Dossier.onDispute_row, returned_row, Auction.withStatus_status] at hafter
    split at hafter <;> cases hafter
  | _ => exact absurd hafter hbefore

/-- An approved auction can only be scheduled. -/
theorem Move.leaves_approved (hm : Move view act d d') (hbefore : d.row.status = .approved)
    (hafter : d'.row.status ≠ .approved) : act = .enter .scheduled := by
  cases hm with
  | enter allowed | activate allowed =>
    rw [hbefore] at allowed
    simp [allowedTransitions] at allowed <;> rw [allowed]
  | resume paused => rw [hbefore] at paused; cases paused
  | start scheduled => rw [hbefore] at scheduled; cases scheduled
  | close live => rw [hbefore] at live; cases live
  | settle _ closed => rw [hbefore] at closed; cases closed
  | dispute open_ => rw [hbefore] at open_; simp [disputable] at open_
  | resolve _ _ _ closes => rw [hbefore] at closes; simp [allowedTransitions] at closes
  | _ => exact absurd hbefore hafter

theorem Move.approves (hm : Move view (.enter .approved) d d') :
    d.row.status = .submitted ∧ d'.row.status = .approved := by
  cases hm with
  | enter allowed =>
    refine ⟨?_, rfl⟩
    generalize d.row.status = status at allowed
    cases status <;> simp_all [allowedTransitions]

theorem Move.schedules (hm : Move view (.enter .scheduled) d d') :
    d.row.status = .approved ∧ d'.row.status = .scheduled := by
  cases hm with
  | enter allowed =>
    refine ⟨?_, rfl⟩
    generalize d.row.status = status at allowed
    cases status <;> simp_all [allowedTransitions]

end Moves

section Stages
variable {db : Database} {before : List (Site × SiteEvent)} {c c' : Site} {ev : SiteEvent}
variable {a : AuctionId} {i j : Nat} {actor : UserId} {reason : String} {call : Call}

/-- Process `i` has approved the auction, and has still to schedule it. -/
def Scheduling (a : AuctionId) (c : Site) (i : Nat) : Prop :=
  ∃ actor reason, (c.sessions i).task =
    some (.approve a actor reason, (ServiceTx.autoSchedule a actor).alone)

/-- Process `i` is in a call of `approve`. -/
def Approving (a : AuctionId) (c : Site) (i : Nat) : Prop :=
  ∃ actor reason t, (c.sessions i).task = some (.approve a actor reason, t) ∧
    (c.sessions i).outcome = none

/-- A failure, or the end of a process, between the two transactions of `approve`. -/
def Strands (a : AuctionId) (c : Site) (ev : SiteEvent) : Prop :=
  ∃ i, Scheduling a c i ∧ (ev = .fault i ∨ ev = .crash i)

/-- An approved auction is about to be scheduled. -/
def Pursued (a : AuctionId) (c : Site) : Prop :=
  (c.dossier a).row.status = .approved → ∃ i, Scheduling a c i

/-- What is left to do of a call of `approve`. -/
def Stage (a : AuctionId) (actor : UserId) (reason : String) (t : ServiceTask) : Prop :=
  t = approveTask a actor reason ∨ t = (ServiceTx.autoSchedule a actor).alone ∨
    (∃ r, t = .done r) ∨ ∃ e, t = .fail e

theorem run_stage (hrun : SiteRun db before c) {t : ServiceTask}
    (ht : (c.sessions i).task = some (.approve a actor reason, t)) : Stage a actor reason t := by
  have hall := hrun.tasks (P := fun call t => ∀ a actor reason, call = .approve a actor reason →
    Stage a actor reason t) ?_ ?_ ?_ ?_ ?_
  · exact hall i _ t ht _ _ _ rfl
  · intro i call t ht
    cases ht
  · rintro _ a actor reason rfl
    exact .inl rfl
  · rintro _ rest s h a actor reason rfl
    rcases h _ _ _ rfl with h | h | ⟨_, h⟩ | ⟨_, h⟩ <;> cases h
  · intro _ l ok err h
    constructor
    · rintro r a actor reason rfl
      rcases h _ _ _ rfl with h | h | ⟨_, h⟩ | ⟨_, h⟩ <;> cases h
      · exact .inr (.inl rfl)
      · exact .inr (.inr (.inl ⟨r, rfl⟩))
    · rintro e a actor reason rfl
      rcases h _ _ _ rfl with h | h | ⟨_, h⟩ | ⟨_, h⟩ <;> cases h
      · exact .inr (.inr (.inr ⟨e, rfl⟩))
      · exact .inr (.inr (.inr ⟨e, rfl⟩))
  · rintro _ a actor reason rfl
    exact .inr (.inr (.inr ⟨_, rfl⟩))

theorem commit_may (hrun : SiteRun db before c) {l : ServiceTx}
    (hc : c.commits ev = some (call, l)) : call.May l :=
  Run.issued (P := fun call l _ => call.May l)
    (fun call m => body_may Moment.Leads.refl (fun _ _ _ => Moment.Leads.trans) call m)
    ⟨before, c, hrun⟩ hc

theorem schedules_of {l : ServiceTx} (hact : l.action = .enter .scheduled)
    (ht : l.target = some a) : ∃ actor, l = .autoSchedule a actor := by
  cases l <;> simp_all [ServiceTx.action, ServiceTx.target]

theorem approves_of {l : ServiceTx} (hact : l.action = .enter .approved)
    (ht : l.target = some a) : ∃ actor reason, l = .approve a actor reason := by
  cases l <;> simp_all [ServiceTx.action, ServiceTx.target]

/-- What approves an auction has still to schedule it. -/
theorem approval_commit (hrun : SiteRun db before c) (hs : engine.step c ev = some c')
    (hc : c.commits ev = some (call, .approve a actor reason)) :
    ∃ i, ev = .act i ∧ Scheduling a c' i := by
  have hcall : call = .approve a actor reason := by
    have hmay := commit_may hrun hc
    cases call <;> simp_all [Call.May, Announces]
  subst hcall
  obtain ⟨i, ok, err, r, hev, ht, ht'⟩ := commit_task hs hc
  rcases run_stage hrun ht with h | h | ⟨_, h⟩ | ⟨_, h⟩ <;> cases h
  exact ⟨i, hev, actor, reason, ht'⟩

/-- What schedules it had approved it, and is done. -/
theorem schedule_commit (hrun : SiteRun db before c) (hs : engine.step c ev = some c')
    (hc : c.commits ev = some (call, .autoSchedule a actor)) :
    ∃ i, ev = .act i ∧ Scheduling a c i ∧ ¬ Scheduling a c' i := by
  obtain ⟨reason, rfl⟩ : ∃ reason, call = .approve a actor reason := by
    have hmay := commit_may hrun hc
    cases call <;> simp_all [Call.May, Announces]
  obtain ⟨i, ok, err, r, hev, ht, ht'⟩ := commit_task hs hc
  rcases run_stage hrun ht with h | h | ⟨_, h⟩ | ⟨_, h⟩ <;> cases h
  refine ⟨i, hev, ⟨actor, reason, ht⟩, ?_⟩
  rintro ⟨_, _, hagain⟩
  rw [ht'] at hagain
  cases hagain

/-- Only the commit of an approval makes a process one that has still to schedule. -/
theorem scheduling_step (hrun : SiteRun db before c) (hs : engine.step c ev = some c')
    (h : Scheduling a c' j) : Scheduling a c j ∨
      ∃ actor reason, c.commits ev = some (.approve a actor reason, .approve a actor reason) ∧
        ev.process = some j := by
  obtain ⟨actor, reason, ht'⟩ := h
  rcases step_progress hs j with hsame | ⟨hj, hprogress⟩
  · exact .inl ⟨actor, reason, hsame.symm.trans ht'⟩
  have hstage : ∀ t, (c.sessions j).task = some (.approve a actor reason, t) →
      Stage a actor reason t := fun _ => run_stage hrun
  generalize hx : (c.sessions j).task = x at hprogress hstage
  generalize hy : (c'.sessions j).task = y at hprogress ht'
  cases hprogress with
  | stay => exact .inl ⟨actor, reason, hx.trans ht'⟩
  | crash => cases ht'
  | call =>
    obtain ⟨rfl, hbody⟩ := Prod.mk.inj (Option.some.inj ht')
    cases hbody
  | look =>
    obtain ⟨rfl, _⟩ := Prod.mk.inj (Option.some.inj ht')
    rcases hstage _ rfl with h | h | ⟨_, h⟩ | ⟨_, h⟩ <;> cases h
  | commit hc =>
    obtain ⟨rfl, hnext⟩ := Prod.mk.inj (Option.some.inj ht')
    rcases hstage _ rfl with h | h | ⟨_, h⟩ | ⟨_, h⟩ <;> cases h
    · exact .inr ⟨actor, reason, hc, hj⟩
    · cases hnext
  | abort =>
    obtain ⟨rfl, hnext⟩ := Prod.mk.inj (Option.some.inj ht')
    rcases hstage _ rfl with h | h | ⟨_, h⟩ | ⟨_, h⟩ <;> cases h <;> cases hnext
  | fault => cases ht'

/-- The auctions that are still to be scheduled are approved, and each has one process
that will. -/
structure Orderly (a : AuctionId) (c : Site) : Prop where
  approved : ∀ i, Scheduling a c i → (c.dossier a).row.status = .approved
  single : ∀ i j, Scheduling a c i → Scheduling a c j → i = j

theorem orderly_step (hrun : SiteRun db before c) (h : Orderly a c)
    (hs : engine.step c ev = some c') : Orderly a c' := by
  have happroves : ∀ {actor reason},
      c.commits ev = some (.approve a actor reason, .approve a actor reason) →
      (c'.dossier a).row.status = .approved ∧ ∀ i, ¬ Scheduling a c i := by
    intro actor reason hc
    obtain ⟨hsubmitted, happroved⟩ := (commit_move hrun hs hc rfl).approves
    refine ⟨happroved, fun i hi => ?_⟩
    rw [h.approved i hi] at hsubmitted
    cases hsubmitted
  constructor
  · intro i hi
    rcases scheduling_step hrun hs hi with hold | ⟨_, _, hc, _⟩
    · by_contra hleft
      rcases step_dossier hrun hs a with ⟨hsame, _⟩ | ⟨call, l, hc, ht, hm⟩
      · rw [hsame] at hleft
        exact hleft (h.approved i hold)
      · obtain ⟨actor, rfl⟩ := schedules_of (hm.leaves_approved (h.approved i hold) hleft) ht
        obtain ⟨j, _, hj, hdone⟩ := schedule_commit hrun hs hc
        rw [h.single i j hold hj] at hi
        exact hdone hi
    · exact (happroves hc).1
  · intro i j hi hj
    rcases scheduling_step hrun hs hi with holdi | ⟨_, _, hc, hproc⟩
    · rcases scheduling_step hrun hs hj with holdj | ⟨_, _, hc, _⟩
      · exact h.single i j holdi holdj
      · exact absurd holdi ((happroves hc).2 i)
    · rcases scheduling_step hrun hs hj with holdj | ⟨_, _, _, hproc'⟩
      · exact absurd holdj ((happroves hc).2 j)
      · exact Option.some.inj (hproc.symm.trans hproc')

theorem run_orderly (hrun : SiteRun db before c) : Orderly a c := by
  refine hrun.history (I := fun _ c => Orderly a c) (A := fun _ _ => True) ?_
    (fun _ _ _ _ run h _ hs => orderly_step run h hs) fun _ _ => trivial
  constructor
  · rintro i ⟨_, _, h⟩
    cases h
  · rintro i j ⟨_, _, h⟩
    cases h

/-- The second transaction of `approve` raises nothing of its own. -/
theorem schedule_raises (hrun : SiteRun db before c) (hi : Scheduling a c i) {e : PyError} :
    c.raises ev ≠ some (call, .autoSchedule a actor, e) := by
  intro hraise
  obtain ⟨s, hx⟩ := raise_exec (hrun.tracked disciplined) hraise
  rcases transition_error (exec_then_pure_error hx) with hnot | ⟨h, _⟩
  · exact hnot (by rw [(run_orderly hrun).approved i hi]; simp [allowedTransitions])
  · cases h

/-- A step that strands nothing leaves every approved auction pursued. -/
theorem pursued_step (hrun : SiteRun db before c) (h : Pursued a c)
    (hev : ¬ Strands a c ev) (hs : engine.step c ev = some c') : Pursued a c' := by
  intro hafter
  by_cases hbefore : (c.dossier a).row.status = .approved
  · obtain ⟨i, hi⟩ := h hbefore
    refine ⟨i, ?_⟩
    obtain ⟨actor, reason, ht⟩ := id hi
    rcases step_progress hs i with hsame | ⟨_, hprogress⟩
    · exact ⟨actor, reason, hsame.trans ht⟩
    rw [ht] at hprogress
    generalize hy : (c'.sessions i).task = y at hprogress
    cases hprogress with
    | stay => exact ⟨actor, reason, hy⟩
    | crash hcrash => exact absurd ⟨i, hi, .inr hcrash⟩ hev
    | commit hc =>
      obtain ⟨_, hnext⟩ := (commit_move hrun hs hc rfl).schedules
      rw [hnext] at hafter
      cases hafter
    | abort why =>
      rcases why with hraise | hfault
      · exact absurd hraise (schedule_raises hrun hi)
      · exact absurd ⟨i, hi, .inl hfault⟩ hev
  · rcases step_dossier hrun hs a with ⟨hsame, _⟩ | ⟨call, l, hc, ht, hm⟩
    · rw [hsame] at hafter
      exact absurd hafter hbefore
    · obtain ⟨actor, reason, rfl⟩ := approves_of (hm.enters_approved hbefore hafter) ht
      obtain ⟨i, _, hi⟩ := approval_commit hrun hs hc
      exact ⟨i, hi⟩

/-- A step that strands the auction leaves it approved for good. -/
theorem stranded_step (hrun : SiteRun db before c) (hev : Strands a c ev)
    (hs : engine.step c ev = some c') : ¬ Pursued a c' := by
  obtain ⟨i, hi, hstrike⟩ := hev
  have hnone : c.commits ev = none := by
    rcases hstrike with rfl | rfl <;> rfl
  have hsame : c'.dossier a = c.dossier a :=
    step_elsewhere hrun hs fun call l hc => by rw [hnone] at hc; cases hc
  intro hpursued
  have hcase : (c'.dossier a).row.status = .approved := by
    rw [hsame]
    exact (run_orderly hrun).approved i hi
  obtain ⟨j, hj⟩ := hpursued hcase
  rcases scheduling_step hrun hs hj with hold | ⟨_, _, hc, _⟩
  · -- The process that was struck is the only one that would schedule it.
    obtain rfl := (run_orderly hrun).single i j hi hold
    obtain ⟨_, _, ht⟩ := hi
    obtain ⟨_, _, ht'⟩ := hj
    rcases hstrike with rfl | rfl
    · rw [fault_task hs ht] at ht'
      cases ht'
    · rw [crash_task hs] at ht'
      cases ht'
  · rw [hnone] at hc
    cases hc

end Stages

/-- What a call of `approve` on a submitted listing should leave. -/
def ApprovalWhole (a : AuctionId) (actor : UserId) (reason : String) (s s' : Database) : Prop :=
  s' = s ∨ Leaves a
    (((s.dossier a).entered .approved (some actor) reason).entered .scheduled (some actor)
      "Auto-scheduled after approval")
    [⟨some actor, .auctionApproved, .auction a, reason⟩]
    [((s.dossier a).row.seller, .listingApproved, .auction a)] s s'

section Calls
variable {a : AuctionId} {actor : UserId} {reason : String} {first : Database} {A : Prop}

/-- How a call of `approve` ends, with the number of its transactions that committed. -/
def ApprovalEnded (a : AuctionId) (actor : UserId) (reason : String) (A : Prop) (s : Database)
    (n : Nat) (_ : Except PyError Value) (s' : Database) : Prop :=
  (ApprovalWhole a actor reason s s' ∧ n ≠ 1) ∨
    (A ∧ n = 1 ∧ (s.dossier a).row.status = .submitted ∧ (s'.dossier a).row.status = .approved)

theorem approve_ended : (engine.body (.approve a actor reason)).Ensures engine A
    (ApprovalEnded a actor reason A first) 0 first := by
  refine ⟨fun r s hx => ?_, fun e s hx => .inl ⟨.inl rfl, by decide⟩, fun hA => .inl ⟨.inl rfl, by decide⟩⟩
  obtain ⟨row, _, happrove⟩ := exec_then_pure hx
  have hleft := transition_writes happrove
  have hstatus : (s.dossier a).row.status = .approved := by
    rw [hleft.became.here]
    rfl
  have hsubmitted : (first.dossier a).row.status = .submitted := by
    have hallowed := (transition_ok happrove).1
    generalize (first.dossier a).row.status = status at hallowed
    cases status <;> simp_all [allowedTransitions]
  refine ⟨fun r s' hx => ?_, fun e s' hx => ?_, fun hA => .inr ⟨hA, rfl, hsubmitted, hstatus⟩⟩
  · obtain ⟨row', _, hschedule⟩ := exec_then_pure hx
    have hlater := transition_writes hschedule
    rw [hleft.became.here] at hlater
    exact .inl ⟨.inr (hleft.trans hlater).leaves, by decide⟩
  · rcases transition_error (exec_then_pure_error hx) with hnot | ⟨h, _⟩
    · exact absurd (by rw [hstatus]; simp [allowedTransitions]) hnot
    · cases h

/-- A call of `approve` in progress schedules what it has approved. -/
theorem scheduling_approving {c : Site} {i : Nat} (h : Scheduling a c i) : Approving a c i := by
  obtain ⟨actor, reason, ht⟩ := h
  refine ⟨actor, reason, _, ht, ?_⟩
  generalize c.sessions i = x at ht
  cases x <;> cases ht <;> rfl

theorem pursued_iff {db : Database} {before : List (Site × SiteEvent)} {c : Site}
    (hdb : (db.dossier a).row.status ≠ .approved) (hrun : SiteRun db before c) :
    (∀ y ∈ trail before c, Pursued a y) ↔ ∀ x ∈ before, ¬ Strands a x.1 x.2 := by
  refine hrun.exact (G := fun before c => ∀ y ∈ trail before c, Pursued a y)
    (I := fun before c => ∀ y ∈ trail before c, Pursued a y)
    (A := fun c ev => ¬ Strands a c ev) ?_ ?_ (fun _ _ _ h => h) ?_ ?_
  · intro y hy h
    rw [trail_start, List.mem_singleton] at hy
    rw [hy] at h
    exact absurd h hdb
  · intro before c ev c' run h hev hs y hy
    rcases mem_trail_snoc.mp hy with hy | rfl
    · exact h y hy
    · exact pursued_step run (h c mem_trail_last) hev hs
  · intro before c ev c' h y hy
    exact h y (mem_trail_snoc.mpr (.inl hy))
  · intro before c ev c' run _ hev hs h
    exact stranded_step run (not_not.mp hev) hs (h c' mem_trail_last)

/-- Approved auctions are pursued throughout a run exactly when nothing strikes a call of
`approve` between its two transactions; an auction is then approved only while such a
call is in progress. A call that nobody disturbs leaves all of its work or nothing
exactly when no fault strikes it there. -/
theorem approvals_finish_iff {db : Database} (hdb : (db.dossier a).row.status ≠ .approved) :
    (∀ before c, SiteRun db before c →
      ((∀ y ∈ trail before c, Pursued a y) ↔ ∀ x ∈ before, ¬ Strands a x.1 x.2) ∧
      ((∀ x ∈ before, ¬ Strands a x.1 x.2) → (∀ i, ¬ Approving a c i) →
        (c.dossier a).row.status ≠ .approved)) ∧
    ∀ (c₀ c : Site) before i actor reason out,
      c₀.sessions i = .ready (.approve a actor reason) (engine.body (.approve a actor reason)) →
      Run engine.step c₀ before c → (∀ x ∈ before, x.2.Of i) →
      (c.sessions i).outcome = some out →
      (ApprovalWhole a actor reason c₀.db c.db ↔
        ¬ ((∃ x ∈ before, x.2 = .fault i) ∧ commitCount (fun _ => true) before = 1)) := by
  refine ⟨fun before c hrun => ?_, fun c₀ c before i actor reason out hi hrun hof hout => ?_⟩
  · have hexact : (∀ y ∈ trail before c, Pursued a y) ↔ ∀ x ∈ before, ¬ Strands a x.1 x.2 :=
      pursued_iff hdb hrun
    refine ⟨hexact, fun hspared hnone happroved => ?_⟩
    obtain ⟨i, hi⟩ := hexact.mpr hspared c mem_trail_last happroved
    exact hnone i (scheduling_approving hi)
  · have hends := hrun.ensures hi approve_ended hof
      (fun x hx hfault => (⟨x, hx, hfault⟩ : ∃ x ∈ before, x.2 = .fault i)) hout
    rcases hends with ⟨hwhole, hn⟩ | ⟨hfault, hone, hsubmitted, happroved⟩
    · exact ⟨fun _ h => hn h.2, fun _ => hwhole⟩
    · refine ⟨fun hwhole => ?_, fun h => absurd ⟨hfault, hone⟩ h⟩
      rcases hwhole with hsame | hleft
      · rw [hsame, hsubmitted] at happroved
        cases happroved
      · rw [hleft.became.here] at happroved
        cases happroved

/-- The listing is submitted, and approved by an officer whose process then dies. -/
def interruptedApproval : List SiteEvent :=
  [.call 0 (.submitForReview 0 1)] ++ moves 0 8 ++ [.call 1 (.approve 0 0 "")] ++ moves 1 11 ++
    [.crash 1]

/-- Nobody is left to schedule it. -/
theorem approval_stranded : ¬ ∀ (db : Database) (before : List (Site × SiteEvent)) (c : Site)
    (a : AuctionId), Fresh (db.dossier a) → SiteRun db before c → (∀ i, ¬ Approving a c i) →
    (c.dossier a).row.status ≠ .approved := by
  intro hall
  obtain ⟨before, c, hrun, hfew, hq⟩ := play_where engine.step
    (Config.initial sampleDatabase) (fun _ ev => ev.process.all (· < 2)) interruptedApproval
    (fun c => decide ((c.dossier 0).row.status = .approved) && (c.sessions 0).outcome.isSome &&
      (c.sessions 1).task.isNone) (by decide +kernel)
  simp only [Bool.and_eq_true, decide_eq_true_eq, Option.isNone_iff_eq_none] at hq
  obtain ⟨⟨happroved, hdone⟩, hgone⟩ := hq
  refine hall sampleDatabase before c 0 sample_fresh hrun ?_ happroved
  rintro i ⟨_, _, t, ht, hnone⟩
  match i with
  | 0 => rw [hnone] at hdone; cases hdone
  | 1 => rw [hgone] at ht; cases ht
  | i + 2 =>
    have hidle : (c.sessions (i + 2)).task = none := by
      refine hrun.idle rfl fun x hx hi => ?_
      have hlt := hfew x hx
      rw [hi, Option.all_some, decide_eq_true_eq] at hlt
      omega
    rw [hidle] at ht
    cases ht

/-- A call of `approve` that is left alone. -/
theorem approvals_finish_sample : ∃ (m : engine.Moment sampleDatabase),
    (m.now.dossier 0).row.status = .scheduled ∧ ∀ y ∈ trail m.past m.now, Pursued 0 y := by
  obtain ⟨before, c, hrun, hsmooth, hq⟩ := play_where engine.step
    (Config.initial sampleDatabase) (fun _ ev => ev.smooth)
    ([.call 0 (.submitForReview 0 1)] ++ moves 0 8 ++ [.call 1 (.approve 0 0 "")] ++ moves 1 18)
    (fun c => decide ((c.dossier 0).row.status = .scheduled)) (by decide +kernel)
  have hiff := (approvals_finish_iff (a := 0) (by decide)).1 before c hrun
  refine ⟨⟨before, c, hrun⟩, of_decide_eq_true hq, hiff.1.mpr ?_⟩
  rintro x hx ⟨i, _, hstrike⟩
  have hplain := hsmooth x hx
  rcases hstrike with hstrike | hstrike <;> rw [hstrike] at hplain <;> cases hplain

end Calls

end MbararaAuction
