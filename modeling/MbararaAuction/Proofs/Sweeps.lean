import MbararaAuction.Model.Sweeps
import MbararaAuction.Proofs.Closing
import MbararaAuction.Proofs.Windows

namespace MbararaAuction
open Transactions

seal Tx.Exec

/-- The status that the auction of the turn had when its turn came. -/
def statusIn (x : LoadedAuction) (w : World Database Nat) : Status := (w.db.dossier x.pk).row.status

/-- A turn over auctions with status `source`: one that has it still is processed, and
one that has left it is skipped. -/
structure Handled (source target : Status) (t : AuctionTurn) : Prop where
  skipped : statusIn t.item t.found ≠ source → t.left = t.found
  processed : statusIn t.item t.found = source → statusIn t.item t.left = target

/-- The sweep and the commands leave every auction in the same state, and each of them
treats every auction of its batch as it should. -/
structure SameProcedure (m : Meanwhile) (w : World Database Nat) : Prop where
  same : ∀ a, (sweepAmid m w).last.db.dossier a = (commandsAmid m w).last.db.dossier a
  started : ∀ t ∈ (sweepAmid m w).started ++ (commandsAmid m w).started, Handled .scheduled .live t
  closed : ∀ t ∈ (sweepAmid m w).closed ++ (commandsAmid m w).closed, Handled .live .closed t

/-- In each command nothing is left to do after the first auction that somebody else
has moved, and no auction was paused before it could be started. -/
structure Undisturbed (m : Meanwhile) (w : World Database Nat) : Prop where
  started : (commandsAmid m w).started.Pairwise fun t t' =>
    statusIn t.item t.found ≠ .scheduled → statusIn t'.item t'.found ≠ .scheduled
  unpaused : ∀ t ∈ (commandsAmid m w).started, statusIn t.item t.found ≠ .paused
  closed : (commandsAmid m w).closed.Pairwise fun t t' =>
    statusIn t.item t.found ≠ .live → statusIn t'.item t'.found ≠ .live

/-- What the turns of a loop do at the time `t`: the auctions whose status they accept
get the status `target`, at the others they raise what `catches` catches. -/
structure Works
    (turn : LoadedAuction → World Database Nat → Except PyError Value × World Database Nat)
    (catches : PyError → Bool) (P : LoadedAuction → Prop) (t : Time) (accepts : Status → Prop)
    (target : Status) : Prop where
  ok : ∀ {x w}, P x → w.db.clock = t → accepts (statusIn x w) →
    ∃ r w', turn x w = (.ok r, w') ∧ statusIn x w' = target ∧ w'.db.clock = t
  error : ∀ {x w}, P x → w.db.clock = t → ¬ accepts (statusIn x w) →
    ∃ e, turn x w = (.error e, w) ∧ catches e = true
  moves : ¬ accepts target

section Turns
variable {x : LoadedAuction} {w : World Database Nat} {t : Time} {l : ServiceTx}

theorem startTurn_due (hdue : dueToStart t x.row = true) (hclock : w.db.clock = t) :
    startTurn x w = (engine.prog (.activate x.pk none)).atomic w := by
  rw [dueToStart_iff, ← hclock] at hdue
  rw [← alone_run]
  simp only [startTurn, activateIfDue, Task.run, if_pos hdue, ServiceTx.alone]

/-- An auction that cannot be started is left alone. -/
theorem activate_raises {a : AuctionId} (actor : Option UserId)
    (hnot : .live ∉ allowedTransitions (w.db.dossier a).row.status) :
    ∃ message, (engine.prog (.activate a actor)).atomic w =
      (.error (.invalidTransition message), w) := by
  let status := (w.db.dossier a).row.status
  refine ⟨s!"Cannot move auction #{a} from {status.value} to {Status.live.value}.", ?_⟩
  simp only [engine, ServiceTx.prog, activate, transition, lockedAuction, Tx.atomic, Tx.acquire,
    Tx.query, Tx.refuse, bind, Functor.map, Tx.bind, Tx.run, if_pos hnot]
  rfl

/-- An auction that is not live is left alone. -/
theorem closeAuction_raises (actor : Option UserId) (hnot : statusIn x w ≠ .live) :
    ∃ message, (engine.prog (.closeAuction x actor)).atomic w =
      (.error (.valueError message), w) := by
  refine ⟨s!"Cannot close auction #{x.pk}: status is {(statusIn x w).value}, not LIVE.", ?_⟩
  simp only [statusIn] at hnot
  simp only [engine, ServiceTx.prog, closeAuction, lockedAuction, Tx.atomic, Tx.acquire,
    Tx.query, Tx.refuse, bind, Functor.map, Tx.bind, Tx.run, if_pos hnot]
  rfl

/-- The turns of the loop that starts auctions. -/
theorem startTurn_works : Works startTurn PyError.isValidationError
    (fun x => dueToStart t x.row = true) t (fun status => .live ∈ allowedTransitions status) .live where
  ok := by
    intro x w hdue hclock haccepts
    obtain ⟨r, w', hrun, hx⟩ := atomic_ok (p := engine.prog (.activate x.pk none)) (w := w) fun e s hx => by
      rcases transition_error (exec_then_pure_error hx) with hnot | ⟨hrejected, _⟩
      · exact hnot haccepts
      · cases hrejected
    have hb := activate_lights hx
    refine ⟨r, w', (startTurn_due hdue hclock).trans hrun, ?_, hb.clock.trans hclock⟩
    simp only [statusIn, hb.here]
    rfl
  error := by
    intro x w hdue hclock hnot
    obtain ⟨message, hraises⟩ := activate_raises none hnot
    exact ⟨_, (startTurn_due hdue hclock).trans hraises, rfl⟩
  moves := by decide

/-- The turns of the loop that closes auctions. -/
theorem closeTurn_works {P : LoadedAuction → Prop} :
    Works closeTurn (fun e => e.isValueError || e.isInvalidTransition) P t (· = .live) .closed where
  ok := by
    intro x w _ hclock hlive
    obtain ⟨r, w', hrun, hx⟩ := atomic_ok (p := engine.prog (.closeAuction x none)) (w := w) fun e s hx =>
      closeAuction_error (exec_then_pure_error hx) hlive
    obtain ⟨row, hdone⟩ := exec_map_ok hx
    obtain ⟨d, hm, hb⟩ : Moved .any .close x.pk w.db w'.db := closeAuction_moved hdone
    refine ⟨r, w', (alone_run ..).trans hrun, ?_, hb.clock.trans hclock⟩
    rw [statusIn, hb.here]
    exact (decided_of_close hm).closed
  error := by
    intro x w _ _ hnot
    obtain ⟨message, hraises⟩ := closeAuction_raises none hnot
    exact ⟨_, (alone_run ..).trans hraises, rfl⟩
  moves := by decide

end Turns

section Loops
variable {turn : LoadedAuction → World Database Nat → Except PyError Value × World Database Nat}
variable {catches : PyError → Bool} {P : LoadedAuction → Prop} {t : Time} {accepts : Status → Prop}
variable {source target : Status} {change : LoadedAuction → World Database Nat → World Database Nat}
variable {xs : List LoadedAuction} {w : World Database Nat} {x : LoadedAuction} {τ : AuctionTurn}

theorem Works.attempts (hw : Works turn catches P t accepts target)
    (hchange : ∀ x w, (change x w).db.clock = w.db.clock) :
    Attempts turn change (fun w => w.db.clock = t) P where
  change := fun x {w} hclock => (hchange x w).trans hclock
  done := by
    intro x w r w' hx hclock hturn
    by_cases haccepts : accepts (statusIn x w)
    · obtain ⟨r', w'', hok, hstatus, hclock'⟩ := hw.ok hx hclock haccepts
      cases hturn.symm.trans hok
      refine ⟨?_, hclock'⟩
      rintro rfl
      rw [hstatus] at haccepts
      exact hw.moves haccepts
    · obtain ⟨e, herror, _⟩ := hw.error hx hclock haccepts
      cases hturn.symm.trans herror
  undone := by
    intro x w e w' hx hclock hturn
    by_cases haccepts : accepts (statusIn x w)
    · obtain ⟨r, w'', hok, _⟩ := hw.ok hx hclock haccepts
      cases hturn.symm.trans hok
    · obtain ⟨e', herror, _⟩ := hw.error hx hclock haccepts
      cases hturn.symm.trans herror
      rfl

theorem Works.caught (hw : Works turn catches P t accepts target) {e : PyError} (hx : P x)
    (hclock : w.db.clock = t) (hturn : (turn x w).1 = .error e) : catches e = true := by
  by_cases haccepts : accepts (statusIn x w)
  · obtain ⟨r, w', hok, _⟩ := hw.ok hx hclock haccepts
    rw [hok] at hturn
    cases hturn
  · obtain ⟨e', herror, hcaught⟩ := hw.error hx hclock haccepts
    rw [herror] at hturn
    cases hturn
    exact hcaught

theorem Works.fails (hw : Works turn catches P t accepts target) (hx : P τ.item)
    (hclock : τ.found.db.clock = t) : τ.Fails turn ↔ ¬ accepts (statusIn τ.item τ.found) := by
  constructor
  · rintro ⟨e, hfails⟩ haccepts
    obtain ⟨r, w', hok, _⟩ := hw.ok hx hclock haccepts
    rw [hok] at hfails
    cases hfails
  · intro hnot
    obtain ⟨e, herror, _⟩ := hw.error hx hclock hnot
    exact ⟨e, by rw [herror]⟩

/-- A turn is as it should be, unless it takes an auction that has left `source` all the same. -/
theorem Works.handled_iff (hw : Works turn catches P t accepts target) (hsource : accepts source)
    (hx : P τ.item) (hclock : τ.found.db.clock = t)
    (hmade : τ.left = (turn τ.item τ.found).2) : Handled source target τ ↔
      (accepts (statusIn τ.item τ.found) → statusIn τ.item τ.found = source) := by
  by_cases haccepts : accepts (statusIn τ.item τ.found)
  · obtain ⟨r, w', hok, hstatus, _⟩ := hw.ok hx hclock haccepts
    have hleft : τ.left = w' := by rw [hmade, hok]
    constructor
    · intro h _
      by_contra hother
      rw [← hleft, h.skipped hother] at hstatus
      rw [hstatus] at haccepts
      exact hw.moves haccepts
    · intro h
      exact ⟨fun hother => absurd (h haccepts) hother, fun _ => by rw [hleft]; exact hstatus⟩
  · obtain ⟨e, herror, _⟩ := hw.error hx hclock haccepts
    have hleft : τ.left = τ.found := by rw [hmade, herror]
    refine iff_of_true ⟨fun _ => hleft, fun hstill => ?_⟩ fun h => absurd h haccepts
    rw [hstill] at haccepts
    exact absurd hsource haccepts

/-- In the loop of a command nothing is left to do after the first auction that has
left `source`, and no turn takes an auction that has left it. -/
structure Steady (accepts : Status → Prop) (source : Status) (turns : List AuctionTurn) : Prop where
  rest : turns.Pairwise fun τ τ' =>
    statusIn τ.item τ.found ≠ source → statusIn τ'.item τ'.found ≠ source
  kept : ∀ τ ∈ turns, accepts (statusIn τ.item τ.found) → statusIn τ.item τ.found = source

/-- Then the loop of the sweep does the same. -/
theorem Works.same (hw : Works turn catches P t accepts target) (hsource : accepts source)
    (hchange : ∀ x w, (change x w).db.clock = w.db.clock) (hxs : ∀ x ∈ xs, P x)
    (hclock : w.db.clock = t)
    (h : Steady accepts source (batch turn (fun _ => false) change true xs w).turns) :
    (batch turn catches change true xs w).Same (batch turn (fun _ => false) change true xs w) := by
  have ha := hw.attempts hchange
  refine (batch_same_iff ha hxs hclock fun hx => hw.caught hx).mpr ?_
  have hfails : ∀ τ ∈ (batch turn (fun _ => false) change true xs w).turns,
      τ.Fails turn ↔ statusIn τ.item τ.found ≠ source := by
    intro τ hτ
    obtain ⟨hx, hfound⟩ := (batch_found ha hxs hclock).2 τ hτ
    rw [hw.fails hx hfound]
    constructor
    · intro hnot hstill
      rw [hstill] at hnot
      exact hnot hsource
    · exact fun hother haccepts => hother (h.kept τ hτ haccepts)
  refine h.rest.imp_of_mem fun hτ hτ' hmoved hfail => ?_
  exact (hfails _ hτ').mpr (hmoved ((hfails _ hτ).mp hfail))

/-- Both loops treat every auction as they should exactly in that case. -/
theorem Works.all_handled_iff (hw : Works turn catches P t accepts target) (hsource : accepts source)
    (hchange : ∀ x w, (change x w).db.clock = w.db.clock) (hxs : ∀ x ∈ xs, P x)
    (hclock : w.db.clock = t) :
    (∀ τ ∈ (batch turn catches change true xs w).turns ++
      (batch turn (fun _ => false) change true xs w).turns, Handled source target τ) ↔
    Steady accepts source (batch turn (fun _ => false) change true xs w).turns := by
  have ha := hw.attempts hchange
  have hcatch : ∀ {x w e}, P x → w.db.clock = t → (turn x w).1 = .error e → catches e = true :=
    fun hx => hw.caught hx
  obtain ⟨_, hmade⟩ := batch_patient ha hxs hclock hcatch
  have hiff : ∀ τ ∈ (batch turn catches change true xs w).turns, Handled source target τ ↔
      (accepts (statusIn τ.item τ.found) → statusIn τ.item τ.found = source) := by
    intro τ hτ
    obtain ⟨hx, hfound⟩ := (batch_found ha hxs hclock).2 τ hτ
    exact hw.handled_iff hsource hx hfound (hmade τ hτ)
  constructor
  · intro hall
    have hheeds : ∀ τ, Handled source target τ →
        τ.Heeds fun x w => statusIn x w = source := by
      intro τ hτ
      refine ⟨fun hleft hstill => ?_, hτ.skipped⟩
      have htarget := hτ.processed hstill
      rw [hleft, hstill] at htarget
      rw [htarget] at hsource
      exact hw.moves hsource
    obtain ⟨hsweep, hcommand⟩ := List.forall_mem_append.mp hall
    have hsame := batch_same_of_heeds ha hxs hclock hcatch (fun τ hτ => hheeds τ (hsweep τ hτ))
      fun τ hτ => hheeds τ (hcommand τ hτ)
    have hkept : ∀ τ ∈ (batch turn (fun _ => false) change true xs w).turns,
        accepts (statusIn τ.item τ.found) → statusIn τ.item τ.found = source := by
      intro τ hτ
      rw [← hsame.1] at hτ
      exact (hiff τ hτ).mp (hsweep τ hτ)
    refine ⟨?_, hkept⟩
    have hpairs := (batch_same_iff ha hxs hclock hcatch).mp hsame
    refine hpairs.imp_of_mem fun {τ τ'} hτ hτ' hfail hmoved hstill => ?_
    obtain ⟨hx, hfound⟩ := (batch_found ha hxs hclock).2 τ hτ
    obtain ⟨hx', hfound'⟩ := (batch_found ha hxs hclock).2 τ' hτ'
    refine (hw.fails hx' hfound').mp (hfail ((hw.fails hx hfound).mpr ?_)) ?_
    · exact fun haccepts => hmoved (hkept τ hτ haccepts)
    · rw [hstill]
      exact hsource
  · intro hsteady
    obtain ⟨hturns, _⟩ := hw.same hsource hchange hxs hclock hsteady
    have hsweep : ∀ τ ∈ (batch turn catches change true xs w).turns, Handled source target τ := by
      intro τ hτ
      rw [hiff τ hτ]
      rw [hturns] at hτ
      exact hsteady.kept τ hτ
    refine List.forall_mem_append.mpr ⟨hsweep, ?_⟩
    rw [← hturns]
    exact hsweep

end Loops

/-- What the loops may start. -/
abbrev Startable (status : Status) : Prop := .live ∈ allowedTransitions status

/-- Where the first command and the changes after it lead. -/
def halfway (m : Meanwhile) (w : World Database Nat) : World Database Nat :=
  m.between.val (startDue (fun _ => false) m w).last

section Main
variable (m : Meanwhile) (w : World Database Nat)

theorem started_iff :
    (∀ t ∈ (sweepAmid m w).started ++ (commandsAmid m w).started, Handled .scheduled .live t) ↔
      Steady Startable .scheduled (commandsAmid m w).started :=
  startTurn_works.all_handled_iff (by decide) (fun x => (m.starting x.pk).property)
    (fun _ hx => (mem_auctionsWhere.mp hx).2.2) rfl

theorem started_same (h : Steady Startable .scheduled (commandsAmid m w).started) :
    (startDue PyError.isValidationError m w).Same (startDue (fun _ => false) m w) :=
  startTurn_works.same (by decide) (fun x => (m.starting x.pk).property)
    (fun _ hx => (mem_auctionsWhere.mp hx).2.2) rfl h

theorem started_going : (startDue PyError.isValidationError m w).going = true :=
  (batch_patient (startTurn_works.attempts fun x => (m.starting x.pk).property)
    (fun _ hx => (mem_auctionsWhere.mp hx).2.2) rfl fun hx => startTurn_works.caught hx).1

theorem halfway_clock : (halfway m w).db.clock = w.db.clock :=
  (m.between.property _).trans
    (batch_found (startTurn_works.attempts fun x => (m.starting x.pk).property)
      (fun _ hx => (mem_auctionsWhere.mp hx).2.2) rfl).1

/-- When the first loops do the same, the sweep goes on where the commands do. -/
theorem sweep_halfway (h : Steady Startable .scheduled (commandsAmid m w).started) :
    (sweepAmid m w).closed = (closeDue (fun e => e.isValueError || e.isInvalidTransition) m
      (halfway m w).db.clock true (halfway m w)).turns ∧
    (sweepAmid m w).last = (closeDue (fun e => e.isValueError || e.isInvalidTransition) m
      (halfway m w).db.clock true (halfway m w)).last := by
  obtain ⟨_, hlast⟩ := started_same m w h
  simp only [sweepAmid, started_going, halfway_clock, hlast]
  exact ⟨rfl, rfl⟩

theorem closed_iff (h : Steady Startable .scheduled (commandsAmid m w).started) :
    (∀ t ∈ (sweepAmid m w).closed ++ (commandsAmid m w).closed, Handled .live .closed t) ↔
      Steady (· = .live) .live (commandsAmid m w).closed := by
  rw [(sweep_halfway m w h).1]
  exact closeTurn_works.all_handled_iff rfl (fun x => (m.closing x.pk).property)
    (fun _ _ => trivial) rfl

theorem closed_same (h : Steady Startable .scheduled (commandsAmid m w).started)
    (hclosed : Steady (· = .live) .live (commandsAmid m w).closed) :
    (sweepAmid m w).last = (commandsAmid m w).last := by
  rw [(sweep_halfway m w h).2]
  exact (closeTurn_works.same rfl (fun x => (m.closing x.pk).property) (fun _ _ => trivial) rfl
    hclosed).2

theorem undisturbed_iff : Undisturbed m w ↔
    Steady Startable .scheduled (commandsAmid m w).started ∧
      Steady (· = .live) .live (commandsAmid m w).closed := by
  have hstart : ∀ status, (Startable status → status = .scheduled) ↔ status ≠ .paused := by
    intro status
    cases status <;> simp [Startable, allowedTransitions]
  constructor
  · intro h
    exact ⟨⟨h.started, fun t ht => (hstart _).mpr (h.unpaused t ht)⟩,
      ⟨h.closed, fun _ _ hlive => hlive⟩⟩
  · rintro ⟨hstarted, hclosed⟩
    exact ⟨hstarted.rest, fun t ht => (hstart _).mp (hstarted.kept t ht), hclosed.rest⟩

/-- The commands are the same procedure as the sweep exactly when they are undisturbed. -/
theorem same_procedure_iff : SameProcedure m w ↔ Undisturbed m w := by
  rw [undisturbed_iff]
  constructor
  · intro h
    have hstarted := (started_iff m w).mp h.started
    exact ⟨hstarted, (closed_iff m w hstarted).mp h.closed⟩
  · rintro ⟨hstarted, hclosed⟩
    refine ⟨fun a => ?_, (started_iff m w).mpr hstarted, (closed_iff m w hstarted).mpr hclosed⟩
    rw [closed_same m w hstarted hclosed]

end Main

section Alone
variable {catches : PyError → Bool}

/-- A turn of the loop that starts auctions, for the user who called. -/
def startTurnBy (actor : Option UserId) (x : LoadedAuction) (w : World Database Nat) :
    Except PyError Value × World Database Nat := (activateIfDue x actor .done .fail).run engine w

/-- A turn of the loop that closes auctions, for the user who called. -/
def closeTurnBy (actor : Option UserId) (x : LoadedAuction) (w : World Database Nat) :
    Except PyError Value × World Database Nat := (ServiceTx.closeAuction x actor).alone.run engine w

theorem activateEach_loops (actor : Option UserId) (next : Nat → ServiceTask) :
    Loops engine (startTurnBy actor) catches (fun xs n => activateEach actor catches xs n next)
      next where
  nil := fun _ => rfl
  cons := by
    intro x rest n w
    simp only [activateEach, activateIfDue, startTurnBy, Task.run]
    split
    · simp only [Task.run]
      split <;> rfl
    · rfl

theorem closeEach_loops (actor : Option UserId) (next : Nat → ServiceTask) :
    Loops engine (closeTurnBy actor) catches (fun xs n => closeEach actor catches xs n next)
      next where
  nil := fun _ => rfl
  cons := by
    intro x rest n w
    simp only [closeTurnBy, alone_run, closeEach, Task.run]
    split <;> rename_i hrun <;> simp only [hrun, Task.after]

/-- Where nobody makes changes, the sweep is the task of the call. -/
theorem sweep_alone (w : World Database Nat) :
    ((engine.body (.sweepDue none)).run engine w).2 = (sweepAmid .nothing w).last := by
  obtain ⟨k, hrun⟩ := ((activateEach_loops none _).run _ 0 w).1 (started_going .nothing w)
  refine (congrArg Prod.snd hrun).trans ?_
  simp only [sweepAmid, started_going]
  exact (closeEach_loops none _).ends (fun _ _ => rfl) _ 0 _

/-- Where nobody makes changes, the commands are the tasks of the calls. -/
theorem commands_alone (w : World Database Nat) :
    ((engine.body .closeEndedAuctions).run engine
      ((engine.body .activateScheduledAuctions).run engine w).2).2 = (commandsAmid .nothing w).last := by
  have hfirst : ((engine.body .activateScheduledAuctions).run engine w).2 =
      (startDue (fun _ => false) .nothing w).last :=
    (activateEach_loops none _).ends (fun _ _ => rfl) _ 0 w
  rw [hfirst]
  exact (closeEach_loops none _).ends (fun _ _ => rfl) _ 0 _

end Alone

section Changes

theorem body_clock (call : Call) (w : World Database Nat) :
    ((engine.body call).run engine w).2.db.clock = w.db.clock := by
  have hfinds : (engine.body call).Finds engine (fun _ _ => True) w.db :=
    Task.Issues.finds (Task.Issues.of_all fun _ _ => trivial)
  exact (hfinds.ends (I := fun s => s.clock = w.db.clock)
    (fun _ _ _ _ _ hi hx => (service_clock hx).trans hi) rfl).run

/-- The calls of other actors, one after another. -/
def Change.calls : List Call → Change
  | [] => ⟨id, fun _ => rfl⟩
  | call :: rest => ⟨fun w => (calls rest).val ((engine.body call).run engine w).2, fun w =>
    ((calls rest).property _).trans (body_clock call w)⟩

/-- Others make their calls just before the auction `a` would be started. -/
def Meanwhile.before (a : AuctionId) (calls : List Call) : Meanwhile :=
  { nothing with starting := fun b => Change.calls (if b = a then calls else []) }

/-- Two listings like the sample listing. -/
def twoListings : Database := { sampleDatabase with auctionPks := [0, 1] }

/-- The requests that schedule them both. -/
def scheduling : List (Request Call Outside) :=
  [.call (.submitForReview 0 1), .call (.approve 0 0 ""), .call (.submitForReview 1 1),
    .call (.approve 1 0 "")]

/-- Two auctions are due. When the first is cancelled before its turn, the sweep starts
the second one and the command does not; when it is started and paused by hand, both
start it once more. -/
theorem command_gives_up : ∃ before w, Served twoListings before w ∧
    ((sweepAmid (.before 0 [.cancelAuction 0 0 "ill"]) w).last.db.dossier 1).row.status = .live ∧
    ((commandsAmid (.before 0 [.cancelAuction 0 0 "ill"]) w).last.db.dossier 1).row.status =
      .scheduled ∧
    ((sweepAmid (.before 0 [.startNow 0 0, .pause 0 0 "ill"]) w).last.db.dossier 0).row.status =
      .live ∧
    ¬ SameProcedure (.before 0 [.cancelAuction 0 0 "ill"]) w := by
  obtain ⟨before, w, hserved, hq⟩ := served_state twoListings scheduling (fun w =>
    ((sweepAmid (.before 0 [.cancelAuction 0 0 "ill"]) w).last.db.dossier 1).row.status == .live &&
    ((commandsAmid (.before 0 [.cancelAuction 0 0 "ill"]) w).last.db.dossier 1).row.status ==
      .scheduled &&
    ((sweepAmid (.before 0 [.startNow 0 0, .pause 0 0 "ill"]) w).last.db.dossier 0).row.status ==
      .live)
    (by decide +kernel)
  simp only [Bool.and_eq_true, beq_iff_eq] at hq
  obtain ⟨⟨hsweep, hcommand⟩, hpaused⟩ := hq
  refine ⟨before, w, hserved, hsweep, hcommand, hpaused, fun h => ?_⟩
  rw [h.same 1, hcommand] at hsweep
  cases hsweep

end Changes

end MbararaAuction
