import MbararaAuction.Proofs.Histories
import MbararaAuction.Proofs.LockOrder
import MbararaAuction.Transactions.Completion

namespace MbararaAuction
open Transactions Locking

/-- Nothing has been bid, paid or disputed yet. -/
def Database.Unused (s : Database) : Prop := ∀ a, dossierKeys (s.dossier a) = []

variable {db : Database}

/-- At every moment all transactions in progress hold and take their locks in order. -/
theorem moment_ordered (hdb : db.Unused) (m : engine.Moment db) :
    ∃ at_, Ordered rowOrder DistinctKeys m.now at_ := by
  apply m.run.ordered ordered_engine
  intro n hused
  obtain ⟨a, hn⟩ := hused
  rw [hdb a] at hn
  cases hn

/-- The services never deadlock: at any moment of any interleaving, nobody waits for a lock
in a circle, and whoever has something left to do can move, or waits through others for
somebody who can. -/
theorem services_never_deadlock (hdb : db.Unused) (m : engine.Moment db) (i : Nat) :
    ¬ Relation.TransGen m.now.WaitsOn i i ∧
    ((m.now.sessions i).unfinished = true →
      ∃ j, Relation.ReflTransGen m.now.WaitsOn i j ∧ (engine.act m.now j).isSome = true) := by
  obtain ⟨at_, h⟩ := moment_ordered hdb m
  exact ⟨h.no_circle engine, h.leads_to_mover engine⟩

theorem sample_unused : sampleDatabase.Unused := fun _ => rfl

/-- Two processes that submit the same listing: the second one waits for the first. -/
theorem services_never_deadlock_sample : ∃ m : engine.Moment sampleDatabase,
    engine.act m.now 1 = none ∧
      ∃ j, Relation.ReflTransGen m.now.WaitsOn 1 j ∧ (engine.act m.now j).isSome = true := by
  obtain ⟨m, hm⟩ := scheduled_moment engine sampleDatabase
    ([.call 0 (.submitForReview 0 1), .call 1 (.submitForReview 0 1)] ++ moves 0 2 ++ moves 1 1)
    (fun c => (engine.act c 1).isNone && (c.sessions 1).unfinished) (by decide +kernel)
  simp only [Bool.and_eq_true, Option.isNone_iff_eq_none] at hm
  exact ⟨m, hm.1, (services_never_deadlock sample_unused m 1).2 hm.2⟩

/-- Every request in progress can be brought to its answer: from any moment of any
interleaving, moves of the processes alone lead to one where each of them has done what it
was called for, and no lock is left. -/
theorem requests_can_finish (hdb : db.Unused) (m : engine.Moment db) :
    ∃ after c, Run engine.step m.now after c ∧ (∀ x ∈ after, ∃ i, x.2 = .act i) ∧
      (∀ i, (c.sessions i).call = (m.now.sessions i).call ∧ (c.sessions i).unfinished = false) ∧
      ∀ k, c.locks k = none := by
  have hkeep : ∀ c i c', (∃ at_, Ordered rowOrder DistinctKeys c at_) →
      engine.act c i = some c' → ∃ at_, Ordered rowOrder DistinctKeys c' at_ := by
    intro c i c' h hs
    obtain ⟨at_, h⟩ := h
    exact ordered_step ordered_engine h (show engine.step c (.act i) = some c' from hs)
  have hmover : ∀ c, (∃ at_, Ordered rowOrder DistinctKeys c at_) → ∀ i,
      (c.sessions i).unfinished = true → ∃ j, (engine.act c j).isSome = true := by
    intro c h i hi
    obtain ⟨at_, h⟩ := h
    obtain ⟨j, _, hj⟩ := h.leads_to_mover engine hi
    exact ⟨j, hj⟩
  obtain ⟨n, hfew⟩ := m.run.few
  obtain ⟨after, c, hrun, hacts, ⟨at_, hordered⟩, hends⟩ :=
    finish_by_moves hkeep hmover (moment_ordered hdb m) hfew
  exact ⟨after, c, hrun, hacts, hends, hordered.unlocked fun i => (hends i).2⟩

/-- The two processes that submit the same listing. -/
theorem requests_can_finish_sample : ∃ m : engine.Moment sampleDatabase,
    engine.act m.now 1 = none ∧ ∃ after c, Run engine.step m.now after c ∧
      (∀ x ∈ after, ∃ i, x.2 = .act i) ∧
      (∀ i, (c.sessions i).call = (m.now.sessions i).call ∧ (c.sessions i).unfinished = false) ∧
      ∀ k, c.locks k = none := by
  obtain ⟨m, hm⟩ := scheduled_moment engine sampleDatabase
    ([.call 0 (.submitForReview 0 1), .call 1 (.submitForReview 0 1)] ++ moves 0 2 ++ moves 1 1)
    (fun c => (engine.act c 1).isNone) (by decide +kernel)
  rw [Option.isNone_iff_eq_none] at hm
  exact ⟨m, hm, requests_can_finish sample_unused m⟩

end MbararaAuction
