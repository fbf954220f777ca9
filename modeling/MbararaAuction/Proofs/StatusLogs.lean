import MbararaAuction.Machine.StatusPath
import MbararaAuction.Proofs.Histories

namespace MbararaAuction
open Transactions

seal Tx.Exec

variable {db : Database} {m m' : engine.Moment db} {a : AuctionId}

/-- Between two moments of a run the log only grows, along a path. -/
theorem leads_continues (h : m.Leads m') : Continues (m.now.dossier a) (m'.now.dossier a) :=
  leads_dossier (I := fun _ => True) h (fun _ => .of_same rfl rfl) Continues.trans
    (fun _ => trivial) (fun _ _ _ _ hm => hm.continues)

theorem run_path (m : engine.Moment db) (hfresh : Fresh (db.dossier a)) :
    LogPath .draft (m.now.dossier a).logs (m.now.dossier a).row.status ∧
    Explained (m.now.dossier a).logs := by
  have hcontinues : Continues (db.dossier a) (m.now.dossier a) :=
    leads_continues (m := ⟨[], _, .start⟩) ⟨m.past, m.run, rfl⟩
  obtain ⟨rows, hlogs, hpath, hwhy⟩ := hcontinues
  rw [hfresh.empty.2.1, List.nil_append] at hlogs
  rw [hfresh.draft] at hpath
  rw [hlogs]
  exact ⟨hpath, hwhy⟩

/-- The status log tells the whole story of an auction: at any moment it is a path
of allowed transitions from the draft to the current status, later moments only
extend it, and the final statuses are final. -/
theorem status_log_is_faithful (hfresh : Fresh (db.dossier a)) (h : m.Leads m') :
    LogPath .draft (m'.now.dossier a).logs (m'.now.dossier a).row.status ∧
    (∃ rows, (m'.now.dossier a).logs = (m.now.dossier a).logs ++ rows ∧
      LogPath (m.now.dossier a).row.status rows (m'.now.dossier a).row.status) ∧
    ((m.now.dossier a).row.status = .cancelled ∨ (m.now.dossier a).row.status = .rejected ∨
      (m.now.dossier a).row.status = .completed →
      (m'.now.dossier a).row.status = (m.now.dossier a).row.status) ∧
    ((m'.now.dossier a).row.status = .live →
      ∃ log ∈ (m'.now.dossier a).logs, log.toStatus = .approved) ∧
    ∀ log ∈ (m'.now.dossier a).logs, log.toStatus = .rejected → log.reason ≠ "" := by
  obtain ⟨hpath, hwhy⟩ := run_path m' hfresh
  obtain ⟨rows, hlogs, hbetween, _⟩ := leads_continues (a := a) h
  refine ⟨hpath, ⟨rows, hlogs, hbetween⟩, fun ht => terminal_stays hbetween ht, ?_, hwhy⟩
  intro hlive
  obtain ⟨log, hlog, _, hto⟩ := approved_row hpath (by simp [hlive, Status.pastApproval])
  exact ⟨log, hlog, hto⟩

/-- The story of a listing that was turned down. -/
theorem status_log_is_faithful_sample : ∃ m : engine.Moment sampleDatabase,
    (m.now.dossier 0).logs.length = 2 ∧ (m.now.dossier 0).row.status = .rejected ∧
    LogPath .draft (m.now.dossier 0).logs (m.now.dossier 0).row.status := by
  obtain ⟨m, hm⟩ := served_moment sampleDatabase
    ([.call (.submitForReview 0 1), .call (.reject 0 0 ""),
      .call (.reject 0 0 "No photographs")])
    (fun w => (w.db.dossier 0).logs.length == 2 && (w.db.dossier 0).row.status == .rejected)
    (by decide +kernel)
  simp only [Bool.and_eq_true, beq_iff_eq] at hm
  exact ⟨m, hm.1, hm.2, (status_log_is_faithful sample_fresh (.refl m)).1⟩

end MbararaAuction
