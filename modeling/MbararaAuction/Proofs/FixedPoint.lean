import MbararaAuction.Proofs.Effects
import MbararaAuction.Proofs.Sweeps

namespace MbararaAuction
open Transactions

seal Tx.Exec

/-- An auction that the sweep has started. -/
def Dossier.autoStarted (actor : Option UserId) (d : Dossier) : Dossier :=
  d.entered .live actor "Auto-activated: start_time reached"

/-- The auction as the second loop finds it. -/
def Dossier.startedDue (t : Time) (actor : Option UserId) (d : Dossier) : Dossier :=
  if dueToStart t d.row then d.autoStarted actor else d

/-- The auction is over at `t`, and it is live or about to be. -/
def ending (t : Time) (row : Auction) : Bool :=
  (row.status == .live || dueToStart t row) && row.endTime ≤ t

section Turns
variable {actor : Option UserId} {t : Time} {pks : List AuctionId} {w : World Database Nat}

/-- The clock stands, and auctions neither come nor go. -/
def Still (t : Time) (pks : List AuctionId) (w : World Database Nat) : Prop :=
  w.db.clock = t ∧ w.db.auctionPks = pks

theorem Writes.still {a : AuctionId} {d : Dossier} {rows : List AuditLog} {sent : List Sent}
    {w' : World Database Nat} (h : Writes a d rows sent w.db w'.db) (hw : Still t pks w) :
    Still t pks w' :=
  ⟨h.became.clock.trans hw.1, h.people.1.trans hw.2⟩

theorem startTurn_finishes (actor : Option UserId) (t : Time) (pks : List AuctionId) :
    Finishes (startTurnBy actor) LoadedAuction.pk
    (fun w a => w.db.dossier a) (Still t pks)
    (fun x d => dueToStart t x.row = true ∧ d.row.status = .scheduled)
    (fun _ d d' => d' = d.autoStarted actor) where
  made := by
    rintro x w hw ⟨hdue, hscheduled⟩
    obtain ⟨r, w', hrun, hx⟩ := atomic_ok (p := engine.prog (.activate x.pk actor)) (w := w)
      fun e s hx => activate_error hx hscheduled
    obtain ⟨row, hdone⟩ := exec_map_ok hx
    have hwrites := transition_writes hdone
    refine ⟨r, w', ?_, hwrites.still hw, hwrites.became.here, hwrites.became.there⟩
    rw [dueToStart_iff, ← hw.1] at hdue
    rw [← hrun, ← alone_run]
    simp only [startTurnBy, activateIfDue, Task.run, if_pos hdue, ServiceTx.alone]

theorem closeTurn_finishes (actor : Option UserId) (t : Time) (pks : List AuctionId) :
    Finishes (closeTurnBy actor) LoadedAuction.pk
    (fun w a => w.db.dossier a) (Still t pks) (fun _ d => d.row.status = .live)
    (fun _ d d' => Decided d d') where
  made := by
    intro x w hw hlive
    obtain ⟨r, w', hrun, hx⟩ := atomic_ok (p := engine.prog (.closeAuction x actor)) (w := w)
      fun e s hx => closeAuction_error (exec_then_pure_error hx) hlive
    obtain ⟨row, hdone⟩ := exec_map_ok hx
    obtain ⟨_, _, hwrites⟩ := closeAuction_writes hdone
    obtain ⟨d, hm, hb⟩ : Moved .any .close x.pk w.db w'.db := closeAuction_moved hdone
    refine ⟨r, w', (alone_run ..).trans hrun, hwrites.still hw, ?_, hwrites.became.there⟩
    rw [hb.here]
    exact decided_of_close hm

theorem auctionsWhere_pks (s : Database) (f : Auction → Bool) :
    (auctionsWhere s f).map LoadedAuction.pk = s.auctionPks.filter fun a => f (s.dossier a).row := by
  rw [auctionsWhere, List.filter_map, List.map_map]
  exact List.map_id _

theorem auctionsWhere_length (s : Database) (f : Auction → Bool) :
    (auctionsWhere s f).length = (s.auctionPks.filter fun a => f (s.dossier a).row).length := by
  rw [← auctionsWhere_pks, List.length_map]

theorem auctionsWhere_nodup {s : Database} (hpks : s.auctionPks.Nodup) (f : Auction → Bool) :
    ((auctionsWhere s f).map LoadedAuction.pk).Nodup := by
  rw [auctionsWhere_pks]
  exact hpks.filter _

/-- Where nothing is due, a sweep does nothing. -/
theorem sweep_idle (actor : Option UserId)
    (hstart : ∀ a ∈ w.db.auctionPks, dueToStart w.db.clock (w.db.dossier a).row = false)
    (hclose : ∀ a ∈ w.db.auctionPks, dueToClose w.db.clock (w.db.dossier a).row = false) :
    (engine.body (.sweepDue actor)).run engine w = (.ok (.counts 0 0), w) := by
  have hnone : ∀ f : Auction → Bool, (∀ a ∈ w.db.auctionPks, f (w.db.dossier a).row = false) →
      auctionsWhere w.db f = [] := by
    intro f hf
    rw [← List.length_eq_zero_iff, auctionsWhere_length, List.length_eq_zero_iff,
      List.filter_eq_nil_iff]
    exact fun a ha => by simp [hf a ha]
  change (activateEach actor PyError.isValidationError
    (auctionsWhere w.db (dueToStart w.db.clock)) 0 _).run engine w = _
  rw [hnone _ hstart]
  change (closeEach actor (fun e => e.isValueError || e.isInvalidTransition)
    (auctionsWhere w.db (dueToClose w.db.clock)) 0 _).run engine w = _
  rw [hnone _ hclose]
  rfl

/-- The first loop starts what is due, and nothing else. -/
theorem start_loop (hpks : w.db.auctionPks.Nodup) (next : Nat → ServiceTask) :
    ∃ v, (activateEach actor PyError.isValidationError (auctionsWhere w.db (dueToStart w.db.clock)) 0
        next).run engine w =
      (next (w.db.auctionPks.filter fun a => dueToStart w.db.clock (w.db.dossier a).row).length).run
        engine v ∧ Still w.db.clock w.db.auctionPks v ∧
      (∀ a ∈ w.db.auctionPks, v.db.dossier a = (w.db.dossier a).startedDue w.db.clock actor) ∧
      ∀ a, a ∉ w.db.auctionPks → v.db.dossier a = w.db.dossier a := by
  obtain ⟨v, hrun, hstill, hdone, hframe⟩ := (activateEach_loops actor next).finish (n := 0)
    (startTurn_finishes actor w.db.clock w.db.auctionPks)
    (auctionsWhere_nodup hpks (dueToStart w.db.clock)) ⟨rfl, rfl⟩ fun x hx => by
      obtain ⟨_, hrow, hdue⟩ := mem_auctionsWhere.mp hx
      exact ⟨hdue, by rw [hrow]; exact (dueToStart_iff.mp hdue).1⟩
  rw [Nat.zero_add, auctionsWhere_length] at hrun
  refine ⟨v, hrun, hstill, fun a ha => ?_, fun a ha => ?_⟩
  · unfold Dossier.startedDue
    split
    · next hdue => exact hdone ⟨a, (w.db.dossier a).row⟩ (mem_auctionsWhere.mpr ⟨ha, rfl, hdue⟩)
    · next hdue =>
      apply hframe
      rw [auctionsWhere_pks, List.mem_filter]
      exact fun h => hdue h.2
  · apply hframe
    rw [auctionsWhere_pks, List.mem_filter]
    exact fun h => ha h.1

/-- The second loop closes what is over, and nothing else. -/
theorem close_loop (actor : Option UserId) (hpks : w.db.auctionPks.Nodup) (next : Nat → ServiceTask) :
    ∃ v, (closeEach actor (fun e => e.isValueError || e.isInvalidTransition)
        (auctionsWhere w.db (dueToClose w.db.clock)) 0 next).run engine w =
      (next (w.db.auctionPks.filter fun a => dueToClose w.db.clock (w.db.dossier a).row).length).run
        engine v ∧ Still w.db.clock w.db.auctionPks v ∧
      (∀ a ∈ w.db.auctionPks, dueToClose w.db.clock (w.db.dossier a).row = true →
        Decided (w.db.dossier a) (v.db.dossier a)) ∧
      ∀ a, (a ∈ w.db.auctionPks → dueToClose w.db.clock (w.db.dossier a).row = false) →
        v.db.dossier a = w.db.dossier a := by
  obtain ⟨v, hrun, hstill, hdone, hframe⟩ := (closeEach_loops actor next).finish (n := 0)
    (closeTurn_finishes actor w.db.clock w.db.auctionPks)
    (auctionsWhere_nodup hpks (dueToClose w.db.clock)) ⟨rfl, rfl⟩ fun x hx => by
      obtain ⟨_, hrow, hdue⟩ := mem_auctionsWhere.mp hx
      rw [hrow]
      exact (dueToClose_iff.mp hdue).1
  rw [Nat.zero_add, auctionsWhere_length] at hrun
  refine ⟨v, hrun, hstill, fun a ha hdue => ?_, fun a hnot => ?_⟩
  · exact hdone ⟨a, (w.db.dossier a).row⟩ (mem_auctionsWhere.mpr ⟨ha, rfl, hdue⟩)
  · apply hframe
    rw [auctionsWhere_pks, List.mem_filter]
    rintro ⟨ha, hdue⟩
    rw [hnot ha] at hdue
    cases hdue

theorem startedDue_ending (t : Time) (actor : Option UserId) (d : Dossier) :
    dueToClose t (d.startedDue t actor).row = ending t d.row := by
  unfold Dossier.startedDue ending
  cases hdue : dueToStart t d.row with
  | true =>
    simp only [↓reduceIte, Dossier.autoStarted, Dossier.entered_row, dueToClose,
      Auction.withStatus_status, Auction.withStatus_endTime, Bool.or_true]
    rfl
  | false =>
    simp only [Bool.false_eq_true, ↓reduceIte, Bool.or_false]
    rfl

/-- A start changes nothing that a close looks at. -/
theorem Decided.of_started {t : Time} {actor : Option UserId} {d d' : Dossier}
    (h : Decided (d.startedDue t actor) d') : Decided d d' := by
  unfold Dossier.startedDue at h
  split at h
  · exact ⟨h.closed, h.bids, h.nobody, h.reserve, h.sold, h.kept⟩
  · exact h

end Turns

section Sweep
variable {w : World Database Nat} {actor : Option UserId}

/-- Both loops: what the sweep makes of every auction. -/
theorem sweep_run (hpks : w.db.auctionPks.Nodup) (actor : Option UserId) :
    ∃ w', (engine.body (.sweepDue actor)).run engine w = (.ok (.counts
        (w.db.auctionPks.filter fun a => dueToStart w.db.clock (w.db.dossier a).row).length
        (w.db.auctionPks.filter fun a => ending w.db.clock (w.db.dossier a).row).length), w') ∧
      Still w.db.clock w.db.auctionPks w' ∧
      (∀ a ∈ w.db.auctionPks, ending w.db.clock (w.db.dossier a).row = true →
        Decided (w.db.dossier a) (w'.db.dossier a)) ∧
      (∀ a ∈ w.db.auctionPks, ending w.db.clock (w.db.dossier a).row = false →
        w'.db.dossier a = (w.db.dossier a).startedDue w.db.clock actor) ∧
      ∀ a, a ∉ w.db.auctionPks → w'.db.dossier a = w.db.dossier a := by
  obtain ⟨v, hfirst, ⟨hclock, hsame⟩, hstarted, hother⟩ := start_loop hpks fun started =>
    .look fun s => closeEach actor (fun e => e.isValueError || e.isInvalidTransition)
      (auctionsWhere s (dueToClose w.db.clock)) 0 fun closed => .done (.counts started closed)
  obtain ⟨w', hsecond, hstill, hclosed, hkept⟩ := close_loop (w := v) actor
    (by rw [hsame]; exact hpks) fun closed => .done (.counts
      (w.db.auctionPks.filter fun a => dueToStart w.db.clock (w.db.dossier a).row).length closed)
  rw [hclock, hsame] at hstill hsecond hclosed hkept
  have hending : ∀ a ∈ w.db.auctionPks, dueToClose w.db.clock (v.db.dossier a).row =
      ending w.db.clock (w.db.dossier a).row := by
    intro a ha
    rw [hstarted a ha, startedDue_ending]
  rw [List.filter_congr hending] at hsecond
  refine ⟨w', hfirst.trans hsecond, hstill, ?_, ?_, ?_⟩
  · intro a ha hover
    have hdecided := hclosed a ha ((hending a ha).trans hover)
    rw [hstarted a ha] at hdecided
    exact hdecided.of_started
  · intro a ha hon
    rw [hkept a fun _ => (hending a ha).trans hon, hstarted a ha]
  · intro a ha
    rw [hkept a fun hmem => absurd hmem ha, hother a ha]

/-- In any state a sweep that is alone reaches a fixed point: it starts what is due and
closes what is over, what it has just started included, it decides each of those as
`close_auction` does, and it leaves the others alone; a second sweep at the same time finds
nothing to do. -/
theorem sweep_reaches_fixed_point (w : World Database Nat) (hpks : w.db.auctionPks.Nodup)
    (actor : Option UserId) :
    ∃ w', (engine.body (.sweepDue actor)).run engine w = (.ok (.counts
        (w.db.auctionPks.filter fun a => dueToStart w.db.clock (w.db.dossier a).row).length
        (w.db.auctionPks.filter fun a => ending w.db.clock (w.db.dossier a).row).length), w') ∧
      (∀ a ∈ w.db.auctionPks, dueToStart w.db.clock (w'.db.dossier a).row = false ∧
        dueToClose w.db.clock (w'.db.dossier a).row = false) ∧
      (∀ a, (a ∈ w.db.auctionPks → dueToStart w.db.clock (w.db.dossier a).row = false ∧
        dueToClose w.db.clock (w.db.dossier a).row = false) → w'.db.dossier a = w.db.dossier a) ∧
      (∀ a ∈ w.db.auctionPks, (w.db.dossier a).row.status ≠ .closed →
        ((w'.db.dossier a).row.status = .closed ↔ ending w.db.clock (w.db.dossier a).row = true)) ∧
      (∀ a ∈ w.db.auctionPks, ending w.db.clock (w.db.dossier a).row = true →
        Decided (w.db.dossier a) (w'.db.dossier a)) ∧
      (∀ a ∈ w.db.auctionPks, dueToStart w.db.clock (w.db.dossier a).row = true →
        ending w.db.clock (w.db.dossier a).row = false →
        w'.db.dossier a = (w.db.dossier a).autoStarted actor) ∧
      ∀ again, (engine.body (.sweepDue again)).run engine w' = (.ok (.counts 0 0), w') := by
  obtain ⟨w', hrun, ⟨hclock, hsame⟩, hdecided, hon, hother⟩ := sweep_run hpks actor
  have hdone : ∀ a ∈ w.db.auctionPks, dueToStart w.db.clock (w'.db.dossier a).row = false ∧
      dueToClose w.db.clock (w'.db.dossier a).row = false := by
    intro a ha
    cases hover : ending w.db.clock (w.db.dossier a).row with
    | true =>
      have hclosed := (hdecided a ha hover).closed
      simp [dueToStart, dueToClose, hclosed]
    | false =>
      rw [hon a ha hover, startedDue_ending]
      refine ⟨?_, hover⟩
      unfold Dossier.startedDue
      cases hdue : dueToStart w.db.clock (w.db.dossier a).row with
      | true => rfl
      | false => exact hdue
  refine ⟨w', hrun, hdone, ?_, ?_, hdecided, ?_, ?_⟩
  · intro a hidle
    by_cases ha : a ∈ w.db.auctionPks
    · obtain ⟨hstart, hclose⟩ := hidle ha
      have hdue : (w.db.dossier a).startedDue w.db.clock actor = w.db.dossier a := by
        unfold Dossier.startedDue
        rw [hstart]
        rfl
      rw [hon a ha, hdue]
      rw [← startedDue_ending _ actor, hdue]
      exact hclose
    · exact hother a ha
  · intro a ha hopen
    cases hover : ending w.db.clock (w.db.dossier a).row with
    | true => exact iff_of_true (hdecided a ha hover).closed rfl
    | false =>
      refine iff_of_false ?_ Bool.false_ne_true
      rw [hon a ha hover]
      unfold Dossier.startedDue
      split
      · intro h
        cases h
      · exact hopen
  · intro a ha hdue hover
    rw [hon a ha hover, Dossier.startedDue, if_pos hdue]
  · intro again
    rw [← hclock, ← hsame] at hdone
    exact sweep_idle again (fun a ha => (hdone a ha).1) fun a ha => (hdone a ha).2

/-- Two scheduled auctions that are both over: one sweep starts and closes them, the next
one does nothing. -/
theorem sweep_reaches_fixed_point_sample : ∃ before w w', Served twoListings before w ∧
    (engine.body (.sweepDue none)).run engine w = (.ok (.counts 2 2), w') ∧
    (engine.body (.sweepDue none)).run engine w' = (.ok (.counts 0 0), w') := by
  obtain ⟨before, w, hserved, hq⟩ := served_state twoListings
    (scheduling ++ [.outside (.tick 3600000000)])
    (fun w => w.db.auctionPks == [0, 1] &&
      (w.db.auctionPks.filter fun a => dueToStart w.db.clock (w.db.dossier a).row).length == 2 &&
      (w.db.auctionPks.filter fun a => ending w.db.clock (w.db.dossier a).row).length == 2)
    (by decide +kernel)
  simp only [Bool.and_eq_true, beq_iff_eq] at hq
  obtain ⟨⟨hpks, hstarted⟩, hclosed⟩ := hq
  obtain ⟨w', hrun, _, _, _, _, _, hagain⟩ :=
    sweep_reaches_fixed_point w (by rw [hpks]; decide) none
  rw [hstarted, hclosed] at hrun
  exact ⟨before, w, w', hserved, hrun, hagain none⟩

end Sweep

end MbararaAuction
