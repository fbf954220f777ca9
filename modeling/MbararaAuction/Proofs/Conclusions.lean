import MbararaAuction.Proofs.Approvals
import MbararaAuction.Proofs.ControlForms
import MbararaAuction.Proofs.Disputes
import MbararaAuction.Proofs.Progress

namespace MbararaAuction
open Transactions Locking

seal Tx.Exec

/-- A listing that was turned down or called off, or an auction that is closed. -/
def Status.concluded : Status → Bool
  | rejected | cancelled | closed | settled | completed => true
  | draft | submitted | approved | scheduled | live | paused | disputed => false

section Moves
variable {view : View} {d d' : Dossier}

/-- A resolution hands the auction back as it was before the dispute. -/
theorem Move.hands_back {pk : Nat} {refund : Bool} (hm : Move view (.resolve pk refund) d d') :
    d'.row.status.concluded = true := by
  cases hm with
  | resolve =>
    rw [Dossier.onDispute_row, returned_row, Auction.withStatus_status]
    split <;> rfl

end Moves

section Legs
variable {db : Database} {m : engine.Moment db} {a : AuctionId}

/-- No process is in a transaction. -/
def Quiet (m : engine.Moment db) : Prop := ∀ k, m.now.locks k = none

/-- A call of one transaction, which nothing refuses. -/
theorem quiet_serves (hquiet : Quiet m) (call : Call) {l : ServiceTx}
    (hbody : engine.body call = l.alone) (ht : l.target = some a)
    (hopen : ∀ e s, ¬ (engine.prog l).Exec Exact m.now.world.db (.error e) s) :
    ∃ m', m.Leads m' ∧ Quiet m' ∧ Move .any l.action (m.now.dossier a) (m'.now.dossier a) := by
  obtain ⟨m', hleads, hlocks, hworld⟩ := moment_serves engine m hquiet call
  obtain ⟨r, w', hrun, hx⟩ := atomic_ok (p := engine.prog l) (w := m.now.world) hopen
  rw [hbody, alone_run, hrun] at hworld
  refine ⟨m', hleads, hlocks, ?_⟩
  rw [← show m'.now.world = w' from hworld] at hx
  rcases service_dossier (fun b => any_admits _ b _) hx a with ⟨hne, _⟩ | ⟨_, hm⟩
  · exact absurd ht hne
  · exact hm

/-- What is submitted can be turned down. -/
theorem submitted_rejected (hquiet : Quiet m) (h : (m.now.dossier a).row.status = .submitted) :
    ∃ m', m.Leads m' ∧ (m'.now.dossier a).row.status = .rejected := by
  obtain ⟨m', hleads, _, hm⟩ := quiet_serves (a := a) hquiet (.reject a 0 "Withdrawn") rfl rfl
    (by
      intro e s hx
      rcases transition_error (exec_then_pure_error hx) with hnot | ⟨_, hblank⟩
      · exact hnot (by rw [show (m.now.world.db.dossier a).row.status = _ from h]; simp [allowedTransitions])
      · exact absurd hblank (by decide))
  exact ⟨m', hleads, hm.enters⟩

/-- A draft can be submitted. -/
theorem draft_submitted (hquiet : Quiet m) (h : (m.now.dossier a).row.status = .draft) :
    ∃ m', m.Leads m' ∧ Quiet m' ∧ (m'.now.dossier a).row.status = .submitted := by
  obtain ⟨m', hleads, hquiet', hm⟩ := quiet_serves (a := a) hquiet (.submitForReview a 0) rfl rfl (by
      intro e s hx
      rcases transition_error (exec_then_pure_error hx) with hnot | ⟨hrejected, _⟩
      · exact hnot (by rw [show (m.now.world.db.dossier a).row.status = _ from h]; simp [allowedTransitions])
      · cases hrejected)
  exact ⟨m', hleads, hquiet', hm.enters⟩

/-- Until it is closed an auction can be called off. -/
theorem open_cancelled (hquiet : Quiet m) (h : schedulable (m.now.dossier a).row.status = true) :
    ∃ m', m.Leads m' ∧ (m'.now.dossier a).row.status = .cancelled := by
  obtain ⟨m', hleads, _, hm⟩ := quiet_serves (a := a) hquiet (.cancelAuction a 0 "Withdrawn")
    rfl rfl (by
      intro e s hx
      have hclosed := cancelAuction_error (by decide) (exec_then_pure_error hx)
      rw [show schedulable (m.now.world.db.dossier a).row.status = true from h] at hclosed
      cases hclosed)
  exact ⟨m', hleads, hm.enters⟩

/-- The dispute that holds an auction can be resolved. -/
theorem disputed_resolved (hquiet : Quiet m) (hbook : DisputeBook (m.now.dossier a))
    (h : (m.now.dossier a).row.status = .disputed) :
    ∃ m', m.Leads m' ∧ (m'.now.dossier a).row.status.concluded = true := by
  have hone := hbook.active
  rw [if_pos h] at hone
  obtain ⟨x, hx, hactive⟩ := List.countP_pos_iff.mp (by rw [hone]; exact Nat.one_pos)
  have hfound : (m.now.world.db.dossier a).disputes.find? (fun y => y.pk = x.pk) = some x :=
    Queries.find_of_key hbook.keys hx
  obtain ⟨m', hleads, _, hm⟩ := quiet_serves (a := a) hquiet
    (.resolveDispute a x.pk 0 "DISMISSED" "Withdrawn" false) rfl rfl (by
      intro e s hx
      cases resolveDispute_error hbook (exec_then_pure_error hx) with
      | outcome invalid => cases invalid
      | notes blank => exact absurd blank (by decide)
      | missing absent =>
        rw [hfound] at absent
        cases absent
      | resolved found inactive =>
        rw [hfound] at found
        cases found
        rw [hactive] at inactive
        cases inactive
      | unpaid asked => cases asked)
  exact ⟨m', hleads, hm.hands_back⟩

/-- What is not stuck in its approval can be concluded. -/
theorem quiet_concludes (hquiet : Quiet m) (hbook : DisputeBook (m.now.dossier a))
    (happroved : (m.now.dossier a).row.status ≠ .approved) :
    ∃ m', m.Leads m' ∧ (m'.now.dossier a).row.status.concluded = true := by
  cases hstatus : (m.now.dossier a).row.status with
  | draft =>
    obtain ⟨m', hleads, hquiet', hsubmitted⟩ := draft_submitted hquiet hstatus
    obtain ⟨m'', hleads', hrejected⟩ := submitted_rejected hquiet' hsubmitted
    exact ⟨m'', hleads.trans hleads', by rw [hrejected]; rfl⟩
  | submitted =>
    obtain ⟨m', hleads, hrejected⟩ := submitted_rejected hquiet hstatus
    exact ⟨m', hleads, by rw [hrejected]; rfl⟩
  | approved => exact absurd hstatus happroved
  | scheduled | live | paused =>
    obtain ⟨m', hleads, hcancelled⟩ := open_cancelled (a := a) hquiet (by rw [hstatus]; rfl)
    exact ⟨m', hleads, by rw [hcancelled]; rfl⟩
  | disputed => exact disputed_resolved hquiet hbook hstatus
  | rejected | cancelled | closed | settled | completed =>
    exact ⟨m, .refl m, by rw [hstatus]; rfl⟩

end Legs

section Approved
variable {db : Database} {before : List (Site × SiteEvent)} {c c' : Site} {ev : SiteEvent}
variable {m m' : engine.Moment db} {a : AuctionId}

theorem unpursued_iff :
    ¬ Pursued a c ↔ (c.dossier a).row.status = .approved ∧ ∀ i, ¬ Scheduling a c i := by
  simp only [Pursued, Classical.not_imp, not_exists]

/-- What nobody pursues any more, no step moves. -/
theorem unpursued_step (hrun : SiteRun db before c) (h : ¬ Pursued a c)
    (hs : engine.step c ev = some c') : ¬ Pursued a c' := by
  obtain ⟨happroved, hnone⟩ := unpursued_iff.mp h
  have hstays : (c'.dossier a).row.status = .approved := by
    by_contra hleft
    rcases step_dossier hrun hs a with ⟨hsame, _⟩ | ⟨call, l, hc, ht, hm⟩
    · rw [hsame] at hleft
      exact hleft happroved
    · obtain ⟨actor, rfl⟩ := schedules_of (hm.leaves_approved happroved hleft) ht
      obtain ⟨i, _, hi, _⟩ := schedule_commit hrun hs hc
      exact hnone i hi
  intro hpursued
  obtain ⟨i, hi⟩ := hpursued hstays
  rcases scheduling_step hrun hs hi with hold | ⟨actor, reason, hc, _⟩
  · exact hnone i hold
  · -- Only a submitted listing is approved.
    obtain ⟨hsubmitted, _⟩ := (commit_move hrun hs hc rfl).approves
    rw [happroved] at hsubmitted
    cases hsubmitted

theorem unpursued_stays (h : m.Leads m') (hm : ¬ Pursued a m.now) : ¬ Pursued a m'.now :=
  h.along (R := fun c c' => ¬ Pursued a c → ¬ Pursued a c') (fun _ => id) (fun h h' => h' ∘ h)
    (fun m _ _ hs hn => unpursued_step m.run hn hs) hm

/-- What `m` leads to while the listing is pursued. -/
def Pursues (a : AuctionId) (m : engine.Moment db) (c : Site) : Prop :=
  ∃ m' : engine.Moment db, m.Leads m' ∧ m'.now = c ∧ Pursued a c

theorem pursues_act (c : Site) (i : Nat) (c' : Site) (h : Pursues a m c)
    (hs : engine.act c i = some c') : Pursues a m c' := by
  obtain ⟨m', hleads, rfl, hpursued⟩ := h
  have htaken : engine.step m'.now (.act i) = some c' := hs
  refine ⟨m'.next htaken, hleads.trans (m'.leads_next htaken), rfl, ?_⟩
  apply pursued_step m'.run hpursued _ htaken
  intro hstrands
  obtain ⟨j, _, hev | hev⟩ := hstrands <;> cases hev

theorem pursues_mover (hdb : db.Unused) (c : Site) (h : Pursues a m c) (i : Nat)
    (hi : (c.sessions i).unfinished = true) : ∃ j, (engine.act c j).isSome = true := by
  obtain ⟨m', _, rfl, _⟩ := h
  obtain ⟨at_, hordered⟩ := moment_ordered hdb m'
  obtain ⟨j, _, hj⟩ := hordered.leads_to_mover engine hi
  exact ⟨j, hj⟩

theorem scheduling_unfinished {i : Nat} (h : Scheduling a c i) :
    (c.sessions i).unfinished = true := by
  obtain ⟨actor, reason, ht⟩ := h
  generalize c.sessions i = x at ht
  cases x <;> cases ht <;> rfl

/-- The requests in progress can be brought to their end with the approval finished too. -/
theorem pursued_finishes (hdb : db.Unused) (hm : Pursued a m.now) :
    ∃ m', m.Leads m' ∧ Quiet m' ∧ (m'.now.dossier a).row.status ≠ .approved := by
  obtain ⟨n, hfew⟩ := m.run.few
  obtain ⟨_, _, _, _, ⟨m', hleads, rfl, hpursued⟩, hends⟩ := finish_by_moves
    (I := Pursues a m) pursues_act (pursues_mover hdb) ⟨m, .refl m, rfl, hm⟩ hfew
  obtain ⟨at_, hordered⟩ := moment_ordered hdb m'
  refine ⟨m', hleads, hordered.unlocked fun i => (hends i).2, fun happroved => ?_⟩
  obtain ⟨i, hi⟩ := hpursued happroved
  have hend := (hends i).2
  rw [scheduling_unfinished hi] at hend
  cases hend

/-- A listing is never stuck, but for one thing: from every moment of every interleaving it
can still be turned down, called off or closed, unless it is approved and no process is left
that will schedule it. It is then approved for good. -/
theorem listings_can_be_concluded (hdb : db.Unused) (hfresh : Fresh (db.dossier a))
    (m : engine.Moment db) :
    (Pursued a m.now → ∃ m', m.Leads m' ∧ (m'.now.dossier a).row.status.concluded = true) ∧
    (¬ Pursued a m.now → ∀ m', m.Leads m' → (m'.now.dossier a).row.status = .approved) := by
  constructor
  · intro hpursued
    obtain ⟨m', hleads, hquiet, happroved⟩ := pursued_finishes hdb hpursued
    obtain ⟨m'', hleads', hconcluded⟩ :=
      quiet_concludes hquiet (run_disputeBook m'.run hfresh) happroved
    exact ⟨m'', hleads.trans hleads', hconcluded⟩
  · intro hnot m' hleads
    exact (unpursued_iff.mp (unpursued_stays hleads hnot)).1

/-- The draft can be concluded. When its approver has died between the two transactions of
`approve`, it never can. -/
theorem listings_can_be_concluded_sample : ∃ m m' : engine.Moment sampleDatabase, m.Leads m' ∧
    (∃ m'', m.Leads m'' ∧ (m''.now.dossier 0).row.status.concluded = true) ∧
    ∀ m'', m'.Leads m'' → (m''.now.dossier 0).row.status = .approved := by
  obtain ⟨before, c, hrun, hfew, hq⟩ := play_where engine.step
    (Config.initial sampleDatabase) (fun _ ev => ev.process.all (· < 2)) interruptedApproval
    (fun c => decide ((c.dossier 0).row.status = .approved) && (c.sessions 0).outcome.isSome &&
      (c.sessions 1).task.isNone) (by decide +kernel)
  simp only [Bool.and_eq_true, decide_eq_true_eq, Option.isNone_iff_eq_none] at hq
  obtain ⟨⟨happroved, hdone⟩, hgone⟩ := hq
  have hnobody : ∀ i, ¬ Scheduling 0 c i := by
    intro i hi
    obtain ⟨_, _, t, ht, hnone⟩ := scheduling_approving hi
    match i with
    | 0 => rw [hnone] at hdone; cases hdone
    | 1 => rw [hgone] at ht; cases ht
    | i + 2 =>
      have hidle : (c.sessions (i + 2)).task = none := by
        refine hrun.idle rfl fun x hx hi => ?_
        have hlt := hfew x hx
        rw [hi, Option.all_some, decide_eq_true_eq] at hlt
        omega
      rw [hidle] at ht
      cases ht
  refine ⟨⟨[], _, .start⟩, ⟨before, c, hrun⟩, ⟨before, hrun, rfl⟩, ?_, ?_⟩
  · exact (listings_can_be_concluded sample_unused sample_fresh _).1 (fun h => by cases h)
  · exact (listings_can_be_concluded sample_unused sample_fresh ⟨before, c, hrun⟩).2
      (unpursued_iff.mpr ⟨happroved, hnobody⟩)

end Approved

end MbararaAuction
