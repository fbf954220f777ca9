import MbararaAuction.Machine.Schedule
import MbararaAuction.Proofs.Served

namespace MbararaAuction
open Transactions

seal Tx.Exec

/-- The calls that may start the auction `a` because its time has come. -/
def Call.Starts (call : Call) (a : AuctionId) (s : Database) : Prop :=
  match call with
  | activateIfDue b _ => b = a
  | sweepDue _ | activateScheduledAuctions => a ∈ s.auctionPks
  | _ => False

/-- The call starts the auction, and its end has come as well. -/
def Overdue (a : AuctionId) (call : Call) (s : Database) : Prop :=
  call.Starts a s ∧ dueToStart s.clock (s.dossier a).row = true ∧ (s.dossier a).row.endTime ≤ s.clock

/-- The call resumes the auction before its start. -/
def ResumesEarly (a : AuctionId) (call : Call) (s : Database) : Prop :=
  (∃ actor, call = .resume a actor) ∧ (s.dossier a).row.status = .paused ∧
    s.clock < (s.dossier a).row.startTime ∧ s.clock < (s.dossier a).row.endTime

/-- Whenever the call, served alone, makes the auction live, the auction is open for
bids at once. -/
def OpensWindow (a : AuctionId) (call : Call) (w : World Database Nat) : Prop :=
  ∀ l s s', (l, s, s') ∈ (engine.body call).committed engine w →
    (s.dossier a).row.status ≠ .live → (s'.dossier a).row.status = .live →
    (s'.dossier a).row.isBiddable s'.clock = true

section Starts
variable {a : AuctionId} {call : Call} {first s s' : Database} {l : ServiceTx} {r : Value}

theorem biddable_iff {row : Auction} {t : Time} : row.isBiddable t = true ↔
    row.status = .live ∧ row.startTime ≤ t ∧ t < row.endTime := by
  simp [Auction.isBiddable]

/-- What the transactions that make auctions live find when the call is served alone,
beginning with the rows `first`. -/
def Lit (a : AuctionId) (call : Call) (first : Database) (l : ServiceTx) (s : Database) : Prop :=
  match l with
  | .activate b _ => b = a → .live ∈ allowedTransitions (s.dossier a).row.status →
      s.dossier a = first.dossier a ∧ s.clock = first.clock ∧ call.Starts a first ∧
      dueToStart first.clock (first.dossier a).row = true
  | .resume b actor => call = .resume b actor ∧ s = first
  | _ => True

/-- A timer touches an auction only by starting or closing it. -/
structure Swept (a : AuctionId) (first s : Database) : Prop where
  clock : s.clock = first.clock
  row : s.dossier a = first.dossier a ∨ .live ∉ allowedTransitions (s.dossier a).row.status

/-- What a timer issues. -/
def Timed (call : Call) (first : Database) (l : ServiceTx) : Prop :=
  match l with
  | .activate b _ => call.Starts b first ∧ dueToStart first.clock (first.dossier b).row = true
  | .closeAuction _ _ => True
  | _ => False

theorem Swept.commit (h : Swept a first s) (hl : Timed call first l)
    (hx : (engine.prog l).Exec Exact s (.ok r) s') : Swept a first s' := by
  have hclock := (service_clock hx).trans h.clock
  rcases service_dossier (fun b => alone_admits b s.clock) hx a with ⟨_, hsame⟩ | ⟨_, hm⟩
  · refine ⟨hclock, ?_⟩
    rw [hsame]
    exact h.row
  · refine ⟨hclock, .inr ?_⟩
    cases l with
    | activate b actor =>
      have hlive : (s'.dossier a).row.status = .live := by
        generalize s'.dossier a = d at hm
        simp only [ServiceTx.action] at hm
        cases hm with
        | enter _ _ still => exact absurd rfl still
        | activate | resume | start => rfl
      simp [hlive, allowedTransitions]
    | closeAuction auction actor =>
      have hclosed : (s'.dossier a).row.status = .closed := by
        generalize s'.dossier a = d at hm
        simp only [ServiceTx.action] at hm
        cases hm with
        | close => rfl
      simp [hclosed, allowedTransitions]
    | _ => exact hl.elim

theorem Swept.lit (h : Swept a first s) (hl : Timed call first l) : Lit a call first l s := by
  cases l with
  | activate b actor =>
    rintro rfl hallowed
    rcases h.row with hrow | hnot
    · exact ⟨hrow, h.clock, hl⟩
    · exact absurd hallowed hnot
  | closeAuction => trivial
  | _ => exact hl.elim

theorem timed_lit {t : ServiceTask} (h : t.Finds engine (fun l _ => Timed call first l) first) :
    t.Finds engine (Lit a call first) first :=
  (h.along (I := Swept a first) (fun _ _ _ _ hl hi hx => hi.commit hl hx) ⟨rfl, .inl rfl⟩).mono
    fun _ _ hl => hl.2.lit hl.1

/-- The loop over the auctions that are due to start. -/
theorem starting_timed {actor : Option UserId} {catches : PyError → Bool} {next : Nat → ServiceTask}
    (hcall : ∀ b ∈ first.auctionPks, call.Starts b first)
    (hnext : ∀ n s, (next n).Issues id (fun _ _ => True) (fun l _ => Timed call first l) s) :
    (activateEach actor catches (auctionsWhere first (dueToStart first.clock)) 0 next).Finds engine
      (fun l _ => Timed call first l) first := by
  apply Task.Issues.finds
  apply activateEach_issues (fun _ => trivial) fun _ _ _ _ _ => trivial
  · intro auction ha _ _ _ _ _ _
    obtain ⟨hpk, hrow, hdue⟩ := mem_auctionsWhere.mp ha
    rw [← hrow] at hdue
    exact ⟨hcall _ hpk, hdue⟩
  · exact fun n s _ => hnext n s

theorem body_lit (call : Call) (first : Database) :
    (engine.body call).Finds engine (Lit a call first) first := by
  have hrefl : ∀ _ : Database, True := fun _ => trivial
  have htrans : ∀ _ _ _ : Database, True → True → True := fun _ _ _ _ _ => trivial
  cases call with
  | sweepDue actor =>
    refine timed_lit (starting_timed (fun _ hb => hb) fun _ s => ?_)
    intro _ _
    exact closeEach_issues hrefl htrans _ 0 (fun _ _ _ _ => trivial) fun _ _ _ => trivial
  | activateScheduledAuctions =>
    exact timed_lit (starting_timed (fun _ hb => hb) fun _ _ => trivial)
  | activateIfDue b actor =>
    change ((if (first.dossier b).row.status = .scheduled ∧
      (first.dossier b).row.startTime ≤ first.clock then .tx (.activate b actor) .done .fail
      else .done (.auction (first.dossier b).row)) : ServiceTask).Finds engine _ first
    split
    · rename_i hdue
      refine ⟨?_, fun _ _ _ => trivial, fun _ _ _ => trivial⟩
      rintro rfl _
      exact ⟨rfl, rfl, rfl, by simp [dueToStart, hdue]⟩
    · trivial
  | resume => exact alone_finds ⟨rfl, rfl⟩
  | _ =>
    refine Task.Issues.finds ((body_may hrefl htrans _ first).mono fun l _ hl => ?_)
    cases l <;> first | trivial | exact absurd hl (by simp [Call.May, Announces])

/-- What is started in time or resumed after its start is open for bids. -/
theorem Lit.opens (h : Lit a call first l s) (hdue : ¬ Overdue a call first)
    (hearly : ¬ ResumesEarly a call first) (hx : (engine.prog l).Exec Exact s (.ok r) s')
    (hbefore : (s.dossier a).row.status ≠ .live) (hafter : (s'.dossier a).row.status = .live) :
    (s'.dossier a).row.isBiddable s'.clock = true := by
  rcases service_dossier (fun b => alone_admits b s.clock) hx a with ⟨_, hsame⟩ | ⟨ht, hm⟩
  · rw [hsame] at hafter
    exact absurd hafter hbefore
  have hact := hm.enters_live hbefore hafter
  refine biddable_iff.mpr ⟨hafter, ?_⟩
  cases l <;> simp only [ServiceTx.action, reduceCtorEq, Action.enter.injEq] at hact
  case activate b actor =>
    cases ht
    obtain ⟨row, hdone⟩ := exec_map_ok hx
    obtain ⟨hallowed, _, _, hb⟩ := transition_ok hdone
    obtain ⟨hrow, hclock, hstarts, hcome⟩ := h rfl hallowed
    rw [hb.here, hb.clock, hrow, hclock]
    constructor
    · exact (dueToStart_iff.mp hcome).2
    · by_contra hover
      exact hdue ⟨hstarts, hcome, not_lt.mp hover⟩
  case startNow b actor =>
    cases ht
    obtain ⟨row, hdone⟩ := exec_map_ok hx
    obtain ⟨_, rfl, _, hend, hb⟩ := startNow_ok hdone
    rw [hb.here, hb.clock]
    exact ⟨min_le_right _ _, hend⟩
  case resume b actor =>
    cases ht
    obtain ⟨rfl, rfl⟩ := h
    obtain ⟨row, hdone⟩ := exec_map_ok hx
    obtain ⟨_, rfl, hpaused, hend, hb⟩ := resume_ok hdone
    rw [hb.here, hb.clock]
    refine ⟨?_, hend⟩
    by_contra hahead
    exact hearly ⟨⟨actor, rfl⟩, hpaused, not_le.mp hahead, hend⟩

/-- The commit makes the auction `a` live, and its row is as it was otherwise. -/
def MadeLive (a : AuctionId) (row : Auction) (t : Time) (s s' : Database) : Prop :=
  (s.dossier a).row = row ∧ (s'.dossier a).row = row.withStatus .live ∧ s'.clock = t

theorem activate_error {actor : Option UserId} {e : PyError}
    (hx : (engine.prog (.activate a actor)).Exec Exact s (.error e) s') :
    (s.dossier a).row.status ≠ .scheduled := by
  intro hscheduled
  rcases transition_error (exec_then_pure_error hx) with hnot | ⟨hrejected, _⟩
  · exact hnot (by simp [hscheduled, allowedTransitions])
  · cases hrejected

theorem activate_lights {actor : Option UserId}
    (hx : (engine.prog (.activate a actor)).Exec Exact s (.ok r) s') :
    Became a ((s.dossier a).entered .live actor "Auto-activated: start_time reached") s s' := by
  obtain ⟨row, hdone⟩ := exec_map_ok hx
  exact (transition_ok hdone).2.2.2

/-- Alone, `activate_if_due` starts what is due. -/
theorem activateIfDue_commits {x : LoadedAuction} {actor : Option UserId} {ok : Value → ServiceTask}
    {err : PyError → ServiceTask} {Q : ServiceTx → Database → Database → Prop}
    (hrow : (s.dossier x.pk).row = x.row) (hdue : dueToStart s.clock x.row = true)
    (hok : ∀ l r s', Became x.pk ((s.dossier x.pk).entered .live actor
      "Auto-activated: start_time reached") s s' → Q l s s' ∨ (ok r).Commits engine Q s') :
    (activateIfDue x actor ok err).Commits engine Q s := by
  rw [dueToStart_iff] at hdue
  simp only [activateIfDue, Task.Commits, if_pos hdue]
  constructor
  · exact fun r s' hx => hok _ r s' (activate_lights hx)
  · intro e s' hx
    have hscheduled := activate_error hx
    rw [hrow] at hscheduled
    exact absurd hdue.1 hscheduled

/-- Alone, the loop of a timer starts every auction that it was given. -/
theorem activateEach_commits {actor : Option UserId} {catches : PyError → Bool}
    {next : Nat → ServiceTask} {row : Auction} {t : Time} (auctions : List LoadedAuction) (n : Nat)
    (hnodup : (auctions.map LoadedAuction.pk).Nodup) (hclock : s.clock = t)
    (hrows : ∀ x ∈ auctions, (s.dossier x.pk).row = x.row ∧ dueToStart t x.row = true)
    (ha : ⟨a, row⟩ ∈ auctions) :
    (activateEach actor catches auctions n next).Commits engine (fun _ => MadeLive a row t) s := by
  induction auctions generalizing n s with
  | nil => cases ha
  | cons x rest ih =>
    obtain ⟨hrow, hdue⟩ := hrows x (List.mem_cons_self ..)
    rw [← hclock] at hdue
    rw [List.map_cons, List.nodup_cons] at hnodup
    apply activateIfDue_commits hrow hdue
    intro _ _ s' hb
    have hclock' := hb.clock.trans hclock
    rcases List.mem_cons.mp ha with rfl | ha
    · left
      exact ⟨hrow, by rw [hb.here, Dossier.entered_row, hrow], hclock'⟩
    · right
      apply ih _ hnodup.2 hclock' _ ha
      intro y hy
      have hother : y.pk ≠ x.pk := fun he => hnodup.1 (he ▸ List.mem_map_of_mem hy)
      rw [hb.there _ hother]
      exact hrows y (List.mem_cons_of_mem _ hy)

theorem starting_commits {actor : Option UserId} {catches : PyError → Bool}
    {next : Nat → ServiceTask} (hpks : s.auctionPks.Nodup) (ha : a ∈ s.auctionPks)
    (hdue : dueToStart s.clock (s.dossier a).row = true) :
    (activateEach actor catches (auctionsWhere s (dueToStart s.clock)) 0 next).Commits engine
      (fun _ => MadeLive a (s.dossier a).row s.clock) s := by
  apply activateEach_commits _ _ _ rfl
  · intro x hx
    exact (mem_auctionsWhere.mp hx).2
  · exact mem_auctionsWhere.mpr ⟨ha, rfl, hdue⟩
  · unfold auctionsWhere
    refine List.Nodup.sublist (List.Sublist.map _ List.filter_sublist) ?_
    rw [List.map_map]
    exact (List.map_id _).symm ▸ hpks

/-- A due auction is started by a call that may start it. -/
theorem body_starts (hpks : s.auctionPks.Nodup) (hstarts : call.Starts a s)
    (hdue : dueToStart s.clock (s.dossier a).row = true) : (engine.body call).Commits engine
      (fun _ => MadeLive a (s.dossier a).row s.clock) s := by
  cases call with
  | sweepDue actor => exact starting_commits hpks hstarts hdue
  | activateScheduledAuctions => exact starting_commits hpks hstarts hdue
  | activateIfDue b actor =>
    cases hstarts
    apply activateIfDue_commits (x := ⟨a, (s.dossier a).row⟩) rfl hdue
    exact fun _ _ s' hb => .inl ⟨rfl, by rw [hb.here, Dossier.entered_row], hb.clock⟩
  | _ => exact hstarts.elim

theorem resume_error {actor : UserId} {e : PyError}
    (hx : (engine.prog (.resume a actor)).Exec Exact s (.error e) s') :
    (s.dossier a).row.status ≠ .paused ∨ (s.dossier a).row.endTime ≤ s.clock := by
  have hx := exec_then_pure_error hx
  simp only [resume, exec_lockedAuction_bind, exec_refuse_bind, exec_now_bind] at hx
  rcases hx with ⟨hstatus, _⟩ | ⟨hpaused, _, rfl, ⟨hend, _⟩ | ⟨_, hx⟩⟩
  · exact .inl hstatus
  · exact .inr hend
  · rcases (exec_bind_error ..).mp hx with htrans | ⟨_, _, _, hx⟩
    · rcases transition_error htrans with hnot | ⟨hrejected, _⟩
      · exact absurd (by simp [not_not.mp hpaused, allowedTransitions]) hnot
      · cases hrejected
    · obtain ⟨_, _, _, hx⟩ := (quiet_record ..).skip hx
      exact absurd (exec_then_pure_error hx) (quiet_notifyAuctionUpdate ..).no_error

/-- An early resumption succeeds. -/
theorem resume_commits {actor : UserId} (hpaused : (s.dossier a).row.status = .paused)
    (hend : s.clock < (s.dossier a).row.endTime) : (engine.body (.resume a actor)).Commits engine
      (fun _ => MadeLive a (s.dossier a).row s.clock) s := by
  constructor
  · intro r s' hx
    obtain ⟨row, hdone⟩ := exec_map_ok hx
    obtain ⟨_, _, _, _, hb⟩ := resume_ok hdone
    exact .inl ⟨rfl, by rw [hb.here, Dossier.entered_row], hb.clock⟩
  · intro e s' hx
    rcases resume_error hx with hnot | hover
    · exact absurd hpaused hnot
    · exact absurd hend (not_lt.mpr hover)

end Starts

section Windows
variable {db : Database} {before : List (World Database Nat × Request Call Outside)}
variable {w w' : World Database Nat} {request : Request Call Outside} {a : AuctionId} {call : Call}

/-- An auction that was made live outside its window is not open for bids. -/
theorem shut_of_commits (hbefore : (w.db.dossier a).row.status ≠ .live)
    (hwindow : ¬ ((w.db.dossier a).row.startTime ≤ w.db.clock ∧
      w.db.clock < (w.db.dossier a).row.endTime))
    (h : (engine.body call).Commits engine
      (fun _ => MadeLive a (w.db.dossier a).row w.db.clock) w.db) : ¬ OpensWindow a call w := by
  intro hopens
  obtain ⟨l, s, s', hc, hrow, hlive, hclock⟩ := h.committed
  have hopen := hopens l s s' hc (by rw [hrow]; exact hbefore) (by rw [hlive]; rfl)
  rw [hlive, hclock, biddable_iff] at hopen
  exact hwindow hopen.2

theorem overdue_shut (hpks : w.db.auctionPks.Nodup) (h : Overdue a call w.db) :
    ¬ OpensWindow a call w := by
  obtain ⟨hstarts, hdue, hend⟩ := h
  refine shut_of_commits ?_ ?_ (body_starts hpks hstarts hdue)
  · intro hlive
    simp [dueToStart, hlive] at hdue
  · exact fun hwindow => absurd hwindow.2 (not_lt.mpr hend)

theorem early_shut (h : ResumesEarly a call w.db) : ¬ OpensWindow a call w := by
  obtain ⟨⟨actor, rfl⟩, hpaused, hahead, hend⟩ := h
  refine shut_of_commits ?_ ?_ (resume_commits hpaused hend)
  · simp [hpaused]
  · exact fun hwindow => absurd hwindow.1 (not_le.mpr hahead)

/-- An auction that runs has begun. -/
def Begun (a : AuctionId) (s : Database) : Prop :=
  (s.dossier a).row.status.running = true → (s.dossier a).row.startTime ≤ s.clock

theorem Begun.commit {first s s' : Database} {l : ServiceTx} {r : Value} (h : Begun a s)
    (hlit : Lit a call first l s) (hx : (engine.prog l).Exec Exact s (.ok r) s') : Begun a s' := by
  intro hafter
  have hclock := service_clock hx
  rcases service_dossier (fun b => alone_admits b s.clock) hx a with ⟨_, hsame⟩ | ⟨ht, hm⟩
  · rw [hsame] at hafter ⊢
    rw [hclock]
    exact h hafter
  by_cases hact : l.action = .enter .live
  · cases l <;> simp only [ServiceTx.action, reduceCtorEq, Action.enter.injEq] at hact
    case activate b actor =>
      cases ht
      obtain ⟨row, hdone⟩ := exec_map_ok hx
      obtain ⟨hallowed, _, _, hb⟩ := transition_ok hdone
      obtain ⟨hrow, hsame, _, hcome⟩ := hlit rfl hallowed
      rw [hb.here, hclock, hrow, hsame]
      simp only [dueToStart, Bool.and_eq_true, decide_eq_true_eq] at hcome
      exact hcome.2
    case startNow b actor =>
      cases ht
      obtain ⟨row, hdone⟩ := exec_map_ok hx
      obtain ⟨_, rfl, _, _, hb⟩ := startNow_ok hdone
      rw [hb.here, hclock]
      exact min_le_right _ _
    case resume b actor =>
      cases ht
      obtain ⟨row, hdone⟩ := exec_map_ok hx
      obtain ⟨_, rfl, hpaused, _, hb⟩ := resume_ok hdone
      rw [hb.here, hclock]
      exact h (by rw [hpaused]; rfl)
  · obtain ⟨hrunning, hstart⟩ := hm.still_running hact hafter
    rw [hstart, hclock]
    exact h hrunning

theorem begun_step (h : Begun a w.db) (hs : engine.serve w request = some w') : Begun a w'.db := by
  cases request with
  | outside v =>
    cases hs
    have hsame : (engine.outside v w.db).dossier a = w.db.dossier a :=
      congrFun (outside_dossier v w.db) a
    intro hafter
    rw [hsame] at hafter ⊢
    exact le_trans (h hafter) (outside_clock v w.db)
  | call call =>
    cases hs
    exact ((body_lit call w.db).ends (fun l s r s' hl h hx => h.commit hl hx) h).run

/-- A call opens a real bidding window whenever it makes an auction live, in any state
at all, exactly when it neither starts an auction whose end has come nor resumes one
before its start; and requests served one after another never lead to the latter. -/
theorem windows_open_iff (hpks : w.db.auctionPks.Nodup) :
    (OpensWindow a call w ↔ ¬ Overdue a call w.db ∧ ¬ ResumesEarly a call w.db) ∧
    ∀ db before, Fresh (db.dossier a) → Served db before w → ¬ ResumesEarly a call w.db := by
  refine ⟨⟨fun h => ⟨fun hover => overdue_shut hpks hover h, fun hearly => early_shut hearly h⟩,
    ?_⟩, ?_⟩
  · rintro ⟨hdue, hearly⟩ l s s' hc hbefore hafter
    obtain ⟨hlit, r, hx⟩ := (body_lit (a := a) call w.db).committed hc
    exact hlit.opens hdue hearly hx hbefore hafter
  · rintro db before hfresh hrun ⟨_, hpaused, hahead, _⟩
    have hbegun : Begun a w.db := by
      refine hrun.invariant (I := fun w => Begun a w.db) ?_ (fun _ _ _ => begun_step)
      intro hrunning
      rw [hfresh.draft] at hrunning
      cases hrunning
    exact absurd (hbegun (by rw [hpaused]; rfl)) (not_le.mpr hahead)

/-- The sample listing is approved, and nobody looks at it for a week. -/
def forgotten : List (Request Call Outside) :=
  [.call (.submitForReview 0 1), .call (.approve 0 0 ""), .outside (.tick 604800000000)]

/-- The sweep opens the auction after its end. -/
theorem forgotten_auction_opened : ¬ ∀ (db : Database)
    (before : List (World Database Nat × Request Call Outside)) (w : World Database Nat)
    (a : AuctionId) (call : Call), Fresh (db.dossier a) → Served db before w →
    OpensWindow a call w := by
  intro hall
  obtain ⟨before, w, hrun, hq⟩ := served_state sampleDatabase forgotten
    (fun w => dueToStart w.db.clock (w.db.dossier 0).row &&
      decide ((w.db.dossier 0).row.endTime ≤ w.db.clock) && decide (w.db.auctionPks = [0]))
    (by decide +kernel)
  simp only [Bool.and_eq_true, decide_eq_true_eq] at hq
  obtain ⟨⟨hdue, hend⟩, hpks⟩ := hq
  have hover : Overdue 0 (.sweepDue none) w.db := ⟨by simp [Call.Starts, hpks], hdue, hend⟩
  refine overdue_shut ?_ hover (hall sampleDatabase before w 0 _ sample_fresh hrun)
  rw [hpks]
  exact List.nodup_singleton 0

/-- The sweep opens the auction in time. -/
theorem windows_open_sample : ∃ before w, Served sampleDatabase before w ∧
    OpensWindow 0 (.sweepDue none) w ∧ dueToStart w.db.clock (w.db.dossier 0).row = true := by
  obtain ⟨before, w, hrun, hq⟩ := served_state sampleDatabase
    [.call (.submitForReview 0 1), .call (.approve 0 0 "")]
    (fun w => dueToStart w.db.clock (w.db.dossier 0).row &&
      decide (w.db.clock < (w.db.dossier 0).row.endTime) && decide (w.db.auctionPks = [0]))
    (by decide +kernel)
  simp only [Bool.and_eq_true, decide_eq_true_eq] at hq
  obtain ⟨⟨hdue, hend⟩, hpks⟩ := hq
  have hiff : (OpensWindow 0 (.sweepDue none) w ↔ _) ∧ _ := windows_open_iff (by simp [hpks])
  refine ⟨before, w, hrun, hiff.1.mpr ⟨fun hover => ?_, hiff.2 _ _ sample_fresh hrun⟩, hdue⟩
  exact absurd hend (not_lt.mpr hover.2.2)

end Windows

end MbararaAuction
