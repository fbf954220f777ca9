import MbararaAuction.Machine.DisputeBook
import MbararaAuction.Proofs.Histories

namespace MbararaAuction
open Transactions

seal Tx.Exec

section Refusals
variable {sees : Database → Database → Prop} {s s' : Database} {a : AuctionId} {pk : Nat}
variable {actor : UserId} {e : PyError}

/-- The payment that a refund reads is missing or not paid. -/
def Unrefundable (sees : Database → Database → Prop) (s : Database) (a : AuctionId) : Prop :=
  ∃ u, sees s u ∧ ∀ p, (u.dossier a).payments.head? = some p → p.status ≠ .paid

theorem refundFor_error {notes : String}
    (h : (refundFor a pk actor notes).Exec sees s (.error e) s') :
    (∃ text, e = .valueError text) ∧ Unrefundable sees s a := by
  simp only [refundFor, markRefunded, exec_glance_bind, exec_require_bind, exec_refuse_bind,
    exec_savePayment_bind] at h
  obtain ⟨u, hu, ⟨hnone, he, _⟩ | ⟨p, hhead, h⟩⟩ := h
  · exact ⟨⟨_, Except.error.inj he⟩, u, hu, by simp [hnone]⟩
  have hreason : s!"Dispute #{pk}: {notes}" ≠ "" := by
    intro hblank
    have hlength := congrArg String.length hblank
    simp [String.length_append] at hlength
  rcases h with ⟨hunpaid, he, _⟩ | ⟨hpaid, ⟨hblank, _⟩ | ⟨_, ⟨hunpaid, _⟩ | ⟨_, h⟩⟩⟩
  · refine ⟨⟨_, Except.error.inj he⟩, u, hu, ?_⟩
    intro q hq
    rw [hhead] at hq
    cases hq
    exact hunpaid
  · exact absurd hblank hreason
  · exact absurd hunpaid hpaid
  · exact absurd h (quiet_record ..).no_error

/-- Everything that can refuse the resolution of a dispute. -/
inductive Refusal (sees : Database → Database → Prop) (s : Database) (a : AuctionId) (pk : Nat)
    (outcome notes : String) (refund : Bool) : PyError → Prop where
  | outcome {text} (invalid : Outcome.ofValue outcome = none) :
      Refusal sees s a pk outcome notes refund (.valueError text)
  | notes {text} (blank : strip notes = "") : Refusal sees s a pk outcome notes refund (.valueError text)
  | missing (absent : (s.dossier a).disputes.find? (fun x => x.pk = pk) = none) :
      Refusal sees s a pk outcome notes refund .doesNotExist
  | resolved {x text} (found : (s.dossier a).disputes.find? (fun x => x.pk = pk) = some x)
      (inactive : x.isActive = false) : Refusal sees s a pk outcome notes refund (.valueError text)
  | unpaid {text} (asked : refund = true) (unrefundable : Unrefundable sees s a) :
      Refusal sees s a pk outcome notes refund (.valueError text)

/-- On a book that agrees with the status there is no other refusal: the
transitions of a resolution are always open. -/
theorem resolveDispute_error (hbook : DisputeBook (s.dossier a)) {outcome notes : String}
    {refund : Bool}
    (h : (resolveDispute a pk actor outcome notes refund).Exec sees s (.error e) s') :
    Refusal sees s a pk outcome notes refund e := by
  simp only [resolveDispute, exec_require_bind, exec_refuse_bind, exec_lockedDispute_bind,
    exec_glance_bind] at h
  rcases h with ⟨hinvalid, he, _⟩ | ⟨result, hvalid, h⟩
  · cases he
    exact .outcome hinvalid
  rcases h with ⟨hblank, he, _⟩ | ⟨_, h⟩
  · cases he
    exact .notes hblank
  rcases h with ⟨habsent, he, _⟩ | ⟨x, hfound, h⟩
  · cases he
    exact .missing habsent
  rcases h with ⟨hinactive, he, _⟩ | ⟨hactive, u, _, h⟩
  · cases he
    exact .resolved hfound hinactive
  have hdisputed : (s.dossier a).row.status = .disputed :=
    hbook.disputed (Queries.find_key hfound).1 (Bool.eq_true_of_not_eq_false hactive)
  rcases (exec_bind_error ..).mp h with hrefund | ⟨_, t, hrefund, h⟩
  · rcases (exec_when ..).mp hrefund with ⟨hasked, hx⟩ | ⟨_, hx, _⟩
    · obtain ⟨⟨text, rfl⟩, hun⟩ := refundFor_error hx
      exact .unpaid hasked hun
    · cases hx
  have hrow : (t.dossier a).row = (s.dossier a).row := by
    rcases (exec_when ..).mp hrefund with ⟨_, hx⟩ | ⟨_, _, rfl⟩
    · obtain ⟨d, hd, hb⟩ := refundFor_ok (any_admits sees a s.clock) hx
      rw [hb.here]
      exact hd.frame.1
    · rfl
  rcases (exec_bind_error ..).mp h with hclose | ⟨_, v, hclose, h⟩
  · rcases transition_error hclose with hnot | ⟨hrejected, _⟩
    · rw [hrow, hdisputed] at hnot
      exact absurd (List.mem_singleton_self _) hnot
    · cases hrejected
  obtain ⟨_, _, _, hb⟩ := transition_ok hclose
  rcases (exec_bind_error ..).mp h with hrestore | ⟨_, w, hrestore, h⟩
  · rcases (exec_when ..).mp hrestore with ⟨_, hx⟩ | ⟨_, hx, _⟩
    · rcases transition_error (exec_then_pure_error hx) with hnot | ⟨hrejected, _⟩
      · rw [hb.here] at hnot
        exact absurd (List.mem_cons_self ..) hnot
      · cases hrejected
    · cases hx
  simp only [exec_now_bind, exec_saveDispute_bind] at h
  obtain ⟨_, _, h⟩ := h
  obtain ⟨_, _, _, h⟩ := (quiet_record ..).skip h
  exact absurd (exec_then_pure_error h) (quiet_forEach _ (fun _ => quiet_notify _)).no_error

theorem Refusal.benign {outcome notes : String} {refund : Bool}
    (h : Refusal sees s a pk outcome notes refund e) :
    e.isInvalidTransition = false ∧ e.isIntegrityError = false := by
  cases h <;> exact ⟨rfl, rfl⟩

end Refusals

section Runs
variable {db : Database} {before : List (Site × SiteEvent)} {c : Site} {a : AuctionId}

theorem run_disputeBook (hrun : SiteRun db before c) (hfresh : Fresh (db.dossier a)) :
    DisputeBook (c.dossier a) :=
  run_dossier hrun hfresh.disputeBook (fun _ _ _ h hm => h.move hm)

/-- An exception that leaves the resolution of a dispute is one of its refusals. -/
theorem resolution_raises (hrun : SiteRun db before c) (hfresh : Fresh (db.dossier a))
    {ev : SiteEvent} {call : Call} {pk : Nat} {actor : UserId} {outcome notes : String}
    {refund : Bool} {e : PyError}
    (hraises : c.raises ev = some (call, .resolveDispute a pk actor outcome notes refund, e)) :
    Refusal Anything c.world.db a pk outcome notes refund e := by
  obtain ⟨s, hx⟩ := raise_exec (hrun.tracked Locking.disciplined) hraises
  exact resolveDispute_error (run_disputeBook hrun hfresh) (exec_then_pure_error hx)

theorem leads_resolved {m m' : engine.Moment db} (h : m.Leads m') (hfresh : Fresh (db.dossier a))
    {x : Dispute} (hx : x ∈ (m.now.dossier a).disputes) (hr : x.status = .resolved) :
    x ∈ (m'.now.dossier a).disputes :=
  leads_dossier (I := DisputeBook) (R := fun d d' => x ∈ d.disputes → x ∈ d'.disputes) h
    (fun _ => id) (fun h h' => h' ∘ h) (fun m => run_disputeBook m.run hfresh)
    (fun _ _ _ hbook hm hx => hm.resolved_stays hbook hx hr) hx

/-- The disputes and the status of an auction agree at every moment of every run;
what is resolved stays as it is, and the resolution of a dispute never meets a
closed transition or a broken constraint. -/
theorem disputes_agree_with_status (hfresh : Fresh (db.dossier a)) {m m' : engine.Moment db}
    (h : m.Leads m') :
    ((m'.now.dossier a).row.status = .disputed ↔
      (m'.now.dossier a).disputes.countP Dispute.isActive = 1) ∧
    (m'.now.dossier a).disputes.countP Dispute.isActive ≤ 1 ∧
    (∀ x ∈ (m'.now.dossier a).disputes, x.isActive →
      x.auctionStatusBefore = .closed ∨ x.auctionStatusBefore = .settled) ∧
    (∀ x ∈ (m.now.dossier a).disputes, x.status = .resolved →
      (m'.now.dossier a).disputes.find? (fun y => y.pk = x.pk) = some x) ∧
    ∀ (ev : SiteEvent) call pk actor outcome notes refund e,
      m'.now.raises ev = some (call, .resolveDispute a pk actor outcome notes refund, e) →
      e.isInvalidTransition = false ∧ e.isIntegrityError = false := by
  have hbook := run_disputeBook m'.run hfresh
  have hactive := hbook.active
  refine ⟨?_, ?_, hbook.before, ?_, ?_⟩
  · rw [hactive]
    split <;> simp_all
  · rw [hactive]
    split <;> simp
  · intro x hx hr
    exact Queries.find_of_key hbook.keys (leads_resolved h hfresh hx hr)
  · intro ev call pk actor outcome notes refund e hraises
    exact (resolution_raises m'.run hfresh hraises).benign

/-- A sale in dispute. -/
theorem disputes_agree_with_status_sample : ∃ m : engine.Moment sampleDatabase,
    (m.now.dossier 0).row.status = .disputed ∧
    (m.now.dossier 0).disputes.countP Dispute.isActive = 1 := by
  obtain ⟨m, hm⟩ := served_moment sampleDatabase
    (opening ++ [.call (.placeBid 0 2 (.int 700000)), .call (.closeAuction 0 none),
      .call (.openDispute 0 2 "NOT_DELIVERED" "Nobody was there")])
    (fun w => (w.db.dossier 0).row.status == .disputed) (by decide +kernel)
  rw [beq_iff_eq] at hm
  exact ⟨m, hm, (disputes_agree_with_status sample_fresh (.refl m)).1.mp hm⟩

end Runs

end MbararaAuction
