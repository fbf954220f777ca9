import MbararaAuction.Machine.StatusPath
import MbararaAuction.Model.Listings
import MbararaAuction.Proofs.Histories

namespace MbararaAuction
open Transactions Locking

seal Tx.Exec

/-- The site at work: the services, and sellers who edit their listings. -/
abbrev Portal := Config Database RowKey PyError Nat Value PortalTx PortalCall

abbrev PortalEvent := Event PortalCall Outside

/-- A history of the site that began with the rows `db`. -/
abbrev PortalRun (db : Database) : List (Portal × PortalEvent) → Portal → Prop :=
  Run portal.step (Config.initial db)

theorem portal_disciplined : Disciplined portal rowLocks where
  guarded l := by
    cases l with
    | service l => exact (keeps_prog l).guarded.mono fun _ _ _ => trivial
    | saveForm auction form =>
      exact ((lawful_saveAuction _).map _).keeps.guarded.mono fun _ _ _ => trivial
  outside := disciplined.outside

section Steps
variable {db : Database} {before : List (Portal × PortalEvent)} {c c' : Portal} {ev : PortalEvent}
variable {a : AuctionId}

theorem lift_only {P : PortalTx → Prop} (hP : ∀ l, P (.service l)) (t : ServiceTask) :
    (lift t).Only P := by
  induction t with
  | done v => trivial
  | fail e => trivial
  | look rest ih => exact fun s => ih s
  | tx l ok err ihok iherr => exact ⟨hP l, ihok, iherr⟩

/-- What the editor saves, it has loaded as a draft. -/
theorem saved_draft (hrun : PortalRun db before c) {call : PortalCall} {auction : LoadedAuction}
    {form : AuctionForm} (hc : c.commits ev = some (call, .saveForm auction form)) :
    auction.row.status = .draft := by
  let P : PortalTx → Prop := fun l =>
    ∀ auction form, l = .saveForm auction form → auction.row.status = .draft
  have hbody : ∀ call, (portal.body call).Only P := by
    intro call
    cases call with
    | service call => exact lift_only (fun l _ _ h => by cases h) call.body
    | edit a u form imagesValid =>
      intro s
      dsimp only
      split
      · trivial
      split
      · trivial
      split
      · trivial
      rename_i hdraft
      split
      · refine ⟨?_, fun _ => trivial, fun _ => trivial⟩
        intro auction form' h
        cases h
        exact not_not.mp hdraft
      · trivial
  have hissued := Run.issued (P := fun _ l _ => P l) (fun call m => (hbody call).issues m)
    ⟨before, c, hrun⟩ hc
  exact hissued auction form rfl

/-- A save of the form puts the loaded row in the place of the committed one. -/
theorem saveForm_commit (hrun : PortalRun db before c) (hs : portal.step c ev = some c')
    {call : PortalCall} {auction : LoadedAuction} {form : AuctionForm}
    (hc : c.commits ev = some (call, .saveForm auction form)) :
    c'.world.db = c.world.db.amend auction.pk (.onRow fun _ => form.applyTo auction.row) := by
  obtain ⟨r, hx⟩ := commit_exec (hrun.tracked portal_disciplined) hs hc
  obtain ⟨_, hsave⟩ := exec_map_ok hx
  exact ((exec_saveAuction _).mp hsave).2

/-- One event, seen from one auction: a move of the services, or a save of the form. -/
theorem portal_step (hrun : PortalRun db before c) (hs : portal.step c ev = some c')
    (a : AuctionId) : (∃ act, Move .any act (c.dossier a) (c'.dossier a)) ∨
      ∃ call auction form, c.commits ev = some (call, .saveForm auction form) ∧ auction.pk = a := by
  have htracked := hrun.tracked portal_disciplined
  cases hcommit : c.commits ev with
  | none =>
    left
    rw [aside_dossier rfl htracked hs hcommit a]
    exact ⟨.aside, .aside⟩
  | some x =>
    obtain ⟨call, l⟩ := x
    cases l with
    | service l =>
      left
      obtain ⟨r, hx⟩ := commit_exec htracked hs hcommit
      exact service_moves hx a
    | saveForm auction form =>
      by_cases ha : auction.pk = a
      · exact .inr ⟨call, auction, form, rfl, ha⟩
      · left
        have hdb := congrArg (fun s => s.dossier a) (saveForm_commit hrun hs hcommit)
        have hsame : c'.dossier a = c.dossier a := hdb.trans (amend_other _ _ _ (Ne.symm ha))
        rw [hsame]
        exact ⟨.aside, .aside⟩

end Steps

/-- The listing has left the draft for good: it never comes back, and its terms stay. -/
def FrozenSince (d d' : Dossier) : Prop :=
  d.row.status ≠ .draft → d'.row.status ≠ .draft ∧ d'.row.listing = d.row.listing

/-- Every change of the status has its row in the log, and what has left the draft
stays as it is. -/
structure Frozen (a : AuctionId) (before : List (Portal × PortalEvent)) (c : Portal) : Prop where
  logged : (trail before c).IsChain (fun y z => Continues (y.dossier a) (z.dossier a))
  since : (trail before c).Pairwise (fun y z => FrozenSince (y.dossier a) (z.dossier a))

/-- Every save of the form finds the listing still a draft. -/
def SavesDraft (a : AuctionId) (_ : PortalCall) (l : PortalTx) (s : Database) : Prop :=
  ∀ auction form, l = .saveForm auction form → auction.pk = a → (s.dossier a).row.status = .draft

section Runs
variable {db : Database} {before : List (Portal × PortalEvent)} {c c' : Portal} {ev : PortalEvent}
variable {a : AuctionId}

/-- No transition leads into the draft. -/
theorem left_draft {rows : List StatusLog} {s t : Status} (h : LogPath s rows t)
    (hs : s ≠ .draft) : t ≠ .draft := by
  refine h.closed (P := fun s => s ≠ .draft) ?_ hs
  intro x y _ hy
  rintro rfl
  cases x <;> simp [allowedTransitions] at hy

theorem FrozenSince.trans {d d' d'' : Dossier} (h : FrozenSince d d') (h' : FrozenSince d' d'') :
    FrozenSince d d'' := by
  intro hd
  obtain ⟨hd', hlisting⟩ := h hd
  obtain ⟨hd'', hlisting'⟩ := h' hd'
  exact ⟨hd'', hlisting'.trans hlisting⟩

theorem Move.frozen {view : View} {act : Action} {d d' : Dossier} (hm : Move view act d d') :
    FrozenSince d d' := by
  intro hd
  obtain ⟨rows, _, hpath, _⟩ := hm.continues
  exact ⟨left_draft hpath hd, hm.listing⟩

/-- A step whose save finds a draft changes no status without a row, and nothing that
has left the draft. -/
theorem frozen_step (hrun : PortalRun db before c) (hdraft : c.Meets (SavesDraft a) ev)
    (hs : portal.step c ev = some c') :
    Continues (c.dossier a) (c'.dossier a) ∧ FrozenSince (c.dossier a) (c'.dossier a) := by
  rcases portal_step hrun hs a with ⟨act, hm⟩ | ⟨call, auction, form, hc, rfl⟩
  · exact ⟨hm.continues, hm.frozen⟩
  · have hwas := hdraft call _ hc auction form rfl rfl
    have hafter : c'.dossier auction.pk =
        (c.dossier auction.pk).onRow fun _ => form.applyTo auction.row := by
      have hdb := congrArg (fun s => s.dossier auction.pk) (saveForm_commit hrun hs hc)
      exact hdb.trans (amend_self ..)
    have hloaded := saved_draft hrun hc
    constructor
    · rw [hafter]
      refine .of_same rfl ?_
      rw [hwas]
      exact hloaded
    · exact fun hleft => absurd hwas hleft

/-- A save over a listing that is no draft makes it one again. -/
theorem frozen_breaks (hrun : PortalRun db before c) (hspoilt : ¬ c.Meets (SavesDraft a) ev)
    (hs : portal.step c ev = some c') : ¬ FrozenSince (c.dossier a) (c'.dossier a) := by
  simp only [Config.Meets, SavesDraft] at hspoilt
  push Not at hspoilt
  obtain ⟨call, l, hc, auction, form, rfl, rfl, hleft⟩ := hspoilt
  have hdb := congrArg (fun s => (s.dossier auction.pk).row.status) (saveForm_commit hrun hs hc)
  have hafter : (c'.dossier auction.pk).row.status = .draft := by
    refine hdb.trans ?_
    rw [amend_self]
    exact saved_draft hrun hc
  intro hfrozen
  exact (hfrozen hleft).1 hafter

/-- In a run of the site what has left the draft stays as it is, and no status changes
without a row in the log, exactly when every save of the form finds a draft. -/
theorem listings_stay_frozen_iff (hrun : PortalRun db before c) :
    Frozen a before c ↔ Met (SavesDraft a) before := by
  refine hrun.exact (I := Frozen a) ?_ ?_ (fun _ _ _ h => h) ?_ ?_
  · exact ⟨List.isChain_singleton _, List.pairwise_singleton ..⟩
  · intro before c ev c' run h hdraft hs
    obtain ⟨hlogged, hfrozen⟩ := frozen_step run hdraft hs
    refine ⟨chain_snoc.mpr ⟨h.logged, hlogged⟩, pairwise_snoc.mpr ⟨h.since, ?_⟩⟩
    intro y hy
    have hsofar : FrozenSince (y.dossier a) (c.dossier a) :=
      pairwise_last h.since (fun hleft => ⟨hleft, rfl⟩) hy
    exact hsofar.trans hfrozen
  · intro before c ev c' h
    exact ⟨(chain_snoc.mp h.logged).1, (pairwise_snoc.mp h.since).1⟩
  · intro before c ev c' run h hspoilt hs hgood
    exact frozen_breaks run hspoilt hs ((pairwise_snoc.mp hgood.since).2 c mem_trail_last)

end Runs

section Schedules

/-- What the seller of the sample listing would rather sell. -/
def secondThoughts : AuctionForm :=
  { AuctionForm.of sampleAuction with title := "Ankole bull", startingPrice := 90000000,
                                      reservePrice := none }

/-- The seller edits the draft, and then submits it. -/
theorem listings_stay_frozen_sample : ∃ m : portal.Moment sampleDatabase,
    (m.now.dossier 0).row.title = "Ankole bull" ∧ (m.now.dossier 0).row.status = .submitted ∧
    (Frozen 0 m.past m.now ↔ Met (SavesDraft 0) m.past) := by
  obtain ⟨m, hm⟩ := scheduled_moment portal sampleDatabase
    ([.call 0 (.edit 0 1 secondThoughts true)] ++ moves 0 5 ++
      [.call 1 (.service (.submitForReview 0 1))] ++ moves 1 8)
    (fun c => (c.dossier 0).row.title == "Ankole bull" && (c.dossier 0).row.status == .submitted)
    (by decide +kernel)
  simp only [Bool.and_eq_true, beq_iff_eq] at hm
  exact ⟨m, hm.1, hm.2, listings_stay_frozen_iff m.run⟩

/-- The listing is submitted between the check and the save of an edit: it is a draft
again, though its log says that it was submitted. -/
theorem submitted_listing_edited : ¬ ∀ (db : Database) (a : AuctionId) (m : portal.Moment db),
    Fresh (db.dossier a) →
    (∃ log ∈ (m.now.dossier a).logs, log.toStatus = .submitted) →
    (m.now.dossier a).row.status ≠ .draft ∧
      LogPath .draft (m.now.dossier a).logs (m.now.dossier a).row.status := by
  intro hall
  obtain ⟨m, hm⟩ := scheduled_moment portal sampleDatabase
    ([.call 0 (.edit 0 1 secondThoughts true)] ++ moves 0 1 ++
      [.call 1 (.service (.submitForReview 0 1))] ++ moves 1 8 ++ moves 0 4)
    (fun c => (c.dossier 0).logs.any (fun log => log.toStatus == .submitted) &&
      (c.dossier 0).row.status == .draft) (by decide +kernel)
  simp only [Bool.and_eq_true, List.any_eq_true, beq_iff_eq] at hm
  obtain ⟨hsubmitted, hdraft⟩ := hm
  exact (hall sampleDatabase 0 m sample_fresh hsubmitted).1 hdraft

end Schedules

end MbararaAuction
