import MbararaAuction.Machine.StatusPath
import MbararaAuction.Model.Admin
import MbararaAuction.Proofs.Histories

namespace MbararaAuction
open Transactions Locking

seal Tx.Exec

/-- The services at work beside the admin site. -/
abbrev BackOffice := Config Database RowKey PyError Nat Value AdminTx AdminCall

abbrev AdminEvent := Event AdminCall Outside

/-- A history of both that began with the rows `db`. -/
abbrev BackOfficeRun (shown : Time → Time) (db : Database) :
    List (BackOffice × AdminEvent) → BackOffice → Prop :=
  Run (backOffice shown).step (Config.initial db)

/-- The columns of an auction that the services write. -/
structure EngineColumns where
  status : Status
  startTime : Time
  endTime : Time
  currentHighestBid : Option Money
  winner : Option UserId
  finalPrice : Option Money
deriving DecidableEq

@[simps] def Auction.engineColumns (row : Auction) : EngineColumns where
  status := row.status
  startTime := row.startTime
  endTime := row.endTime
  currentHighestBid := row.currentHighestBid
  winner := row.winner
  finalPrice := row.finalPrice

/-- Only the title or the description is edited. -/
def AdminEdit.TextOnly (edit : AdminEdit) : Prop :=
  edit = { title := edit.title, description := edit.description }

instance (edit : AdminEdit) : Decidable edit.TextOnly :=
  inferInstanceAs (Decidable (edit = _))

/-- The save of such an edit, or a transaction of the services. -/
def AdminTx.SavesText : AdminTx → Prop
  | service _ => True
  | saveModel _ _ edit => edit.TextOnly

instance (l : AdminTx) : Decidable l.SavesText :=
  match l with
  | .service _ => inferInstanceAs (Decidable True)
  | .saveModel _ _ edit => inferInstanceAs (Decidable edit.TextOnly)

/-- What an edit saves without having edited it is still what the row holds: the status
that the form was rendered with, unless another is chosen; and where only text is edited,
the times of the form, and the columns that the request loaded. -/
structure UpToDate (shown : Time → Time) (edit : AdminEdit) (rendered loaded row : Auction) :
    Prop where
  status : edit.status.getD rendered.status = row.status
  times : edit.TextOnly →
    shown rendered.startTime = row.startTime ∧ shown rendered.endTime = row.endTime
  sale : edit.TextOnly → loaded.currentHighestBid = row.currentHighestBid ∧
    loaded.winner = row.winner ∧ loaded.finalPrice = row.finalPrice

/-- Every save of the change form of `a` is up to date when it commits. -/
def SavesUpToDate (shown : Time → Time) (a : AuctionId) (_ : AdminCall) (l : AdminTx)
    (s : Database) : Prop :=
  ∀ rendered obj edit, l = .saveModel rendered obj edit → obj.pk = a →
    UpToDate shown edit rendered obj.row (s.dossier a).row

/-- Every status change of `a` has its row in the log, and an edit of its text leaves
what the services wrote. -/
structure Unharmed (shown : Time → Time) (a : AuctionId) (before : List (BackOffice × AdminEvent))
    (c : BackOffice) : Prop where
  logged : (trail before c).IsChain (fun y z => Continues (y.dossier a) (z.dossier a))
  kept : ∀ x ∈ before, ∀ c', (backOffice shown).step x.1 x.2 = some c' →
    ∀ call rendered obj edit, x.1.commits x.2 = some (call, .saveModel rendered obj edit) →
      obj.pk = a → edit.TextOnly →
      (c'.dossier a).row.engineColumns = (x.1.dossier a).row.engineColumns

theorem backOffice_disciplined (shown : Time → Time) :
    Disciplined (backOffice shown) rowLocks where
  guarded l := by
    cases l with
    | service l => exact (keeps_prog l).guarded.mono fun _ _ _ => trivial
    | saveModel rendered obj edit =>
      exact ((lawful_saveAuction _).map _).keeps.guarded.mono fun _ _ _ => trivial
  outside := disciplined.outside

section Forms
variable {shown : Time → Time} {db : Database} {m : (backOffice shown).Moment db}

/-- The form was rendered, and later the object loaded, from the committed row. -/
def ReadFrom (call : AdminCall) (l : AdminTx) (m : (backOffice shown).Moment db) : Prop :=
  ∀ rendered obj edit, l = .saveModel rendered obj edit →
    (∃ u accepted, call = .change obj.pk u edit accepted) ∧
    ∃ m₀ m₁ : (backOffice shown).Moment db, m₀.Leads m₁ ∧ m₁.Leads m ∧
      rendered = (m₀.now.dossier obj.pk).row ∧ obj.row = (m₁.now.dossier obj.pk).row

theorem body_reads (call : AdminCall) (m : (backOffice shown).Moment db) :
    ((backOffice shown).body call).Issues Moment.rows Moment.Leads (ReadFrom call) m := by
  cases call with
  | service call =>
    have honly : ((backOffice shown).body (.service call)).Only
        fun l => ∃ x, l = .service x := Task.relabel_only fun x => ⟨x, rfl⟩
    refine (honly.issues m).mono ?_
    rintro l m ⟨x, rfl⟩ rendered obj edit h
    cases h
  | change a u edit accepted =>
    intro m₀ _
    dsimp only
    split
    · trivial
    intro m₁ hm₁
    dsimp only
    split
    · intro m₂ hm₂
      refine ⟨?_, fun _ => trivial, fun _ => trivial⟩
      intro rendered obj edit h
      cases h
      exact ⟨⟨u, accepted, rfl⟩, m₀, m₁, hm₁, hm₂, rfl, rfl⟩
    · trivial

/-- What a save carries was read at two earlier moments of the run. -/
theorem saved_from {ev : AdminEvent} {call : AdminCall} {rendered : Auction}
    {obj : LoadedAuction} {edit : AdminEdit}
    (hc : m.now.commits ev = some (call, .saveModel rendered obj edit)) :
    ∃ m₀ m₁ : (backOffice shown).Moment db, m₀.Leads m₁ ∧ m₁.Leads m ∧
      rendered = (m₀.now.dossier obj.pk).row ∧ obj.row = (m₁.now.dossier obj.pk).row :=
  (Run.issued body_reads m hc _ _ _ rfl).2

end Forms

section Steps
variable {shown : Time → Time} {db : Database} {before : List (BackOffice × AdminEvent)}
variable {c c' : BackOffice} {ev : AdminEvent} {a : AuctionId} {call : AdminCall}
variable {rendered : Auction} {obj : LoadedAuction} {edit : AdminEdit}

/-- A save puts the form over the loaded object in the place of the committed row. -/
theorem saveModel_commit (hrun : BackOfficeRun shown db before c)
    (hs : (backOffice shown).step c ev = some c')
    (hc : c.commits ev = some (call, .saveModel rendered obj edit)) :
    c'.world.db = c.world.db.amend obj.pk
      (.onRow fun _ => (edit.fill (AdminForm.of shown rendered)).applyTo obj.row) := by
  obtain ⟨r, hx⟩ := commit_exec (hrun.tracked (backOffice_disciplined shown)) hs hc
  obtain ⟨_, hsave⟩ := exec_map_ok hx
  exact ((exec_saveAuction _).mp hsave).2

theorem saveModel_dossier (hrun : BackOfficeRun shown db before c)
    (hs : (backOffice shown).step c ev = some c')
    (hc : c.commits ev = some (call, .saveModel rendered obj edit)) :
    c'.dossier obj.pk = (c.dossier obj.pk).onRow
      fun _ => (edit.fill (AdminForm.of shown rendered)).applyTo obj.row := by
  have hdb := congrArg (fun s => s.dossier obj.pk) (saveModel_commit hrun hs hc)
  exact hdb.trans (amend_self ..)

/-- The columns of the services in what an edit of the text saves. -/
theorem textOnly_columns (htext : edit.TextOnly) (loaded : Auction) :
    ((edit.fill (AdminForm.of shown rendered)).applyTo loaded).engineColumns =
      ⟨rendered.status, shown rendered.startTime, shown rendered.endTime,
        loaded.currentHighestBid, loaded.winner, loaded.finalPrice⟩ := by
  rw [AdminEdit.TextOnly] at htext
  rw [htext]
  rfl

/-- An edit that is up to date keeps the status. -/
theorem UpToDate.continues {d : Dossier} {loaded : Auction}
    (h : UpToDate shown edit rendered loaded d.row) :
    Continues d (d.onRow fun _ => (edit.fill (AdminForm.of shown rendered)).applyTo loaded) :=
  .of_same rfl h.status

/-- An edit of the text that is up to date keeps all that the services wrote. -/
theorem UpToDate.columns {loaded row : Auction} (h : UpToDate shown edit rendered loaded row)
    (htext : edit.TextOnly) :
    ((edit.fill (AdminForm.of shown rendered)).applyTo loaded).engineColumns =
      row.engineColumns := by
  have hstatus := h.status
  rw [htext] at hstatus
  obtain ⟨hstart, hend⟩ := h.times htext
  obtain ⟨hhighest, hwinner, hprice⟩ := h.sale htext
  rw [textOnly_columns htext, hstart, hend, hhighest, hwinner, hprice]
  exact congrArg (fun status => EngineColumns.mk status _ _ _ _ _) hstatus

/-- An edit that is not up to date moves the status without a row in the log, or edits
only the text and loses what the services wrote. -/
theorem outdated (d : Dossier) (loaded : Auction)
    (h : ¬ UpToDate shown edit rendered loaded d.row) :
    ¬ Continues d (d.onRow fun _ => (edit.fill (AdminForm.of shown rendered)).applyTo loaded) ∨
      edit.TextOnly ∧ ((edit.fill (AdminForm.of shown rendered)).applyTo loaded).engineColumns ≠
        d.row.engineColumns := by
  by_cases hstatus : edit.status.getD rendered.status = d.row.status
  · right
    have htext : edit.TextOnly := by
      by_contra hother
      exact h ⟨hstatus, fun htext => absurd htext hother, fun htext => absurd htext hother⟩
    refine ⟨htext, fun hsame => h ?_⟩
    rw [textOnly_columns htext] at hsame
    simp only [Auction.engineColumns, EngineColumns.mk.injEq] at hsame
    obtain ⟨_, hstart, hend, hsale⟩ := hsame
    exact ⟨hstatus, fun _ => ⟨hstart, hend⟩, fun _ => hsale⟩
  · exact .inl fun hgoes => hstatus (hgoes.same_log rfl)

/-- One event, seen from one auction: a move of the services, or a save of the form. -/
theorem backOffice_step (hrun : BackOfficeRun shown db before c)
    (hs : (backOffice shown).step c ev = some c') (a : AuctionId) :
    (∃ act, Move .any act (c.dossier a) (c'.dossier a)) ∨
      ∃ call rendered obj edit, c.commits ev = some (call, .saveModel rendered obj edit) ∧
        obj.pk = a := by
  have htracked := hrun.tracked (backOffice_disciplined shown)
  cases hcommit : c.commits ev with
  | none =>
    left
    rw [aside_dossier rfl htracked hs hcommit a]
    exact ⟨.aside, .aside⟩
  | some x =>
    obtain ⟨call, l⟩ := x
    cases l with
    | service l =>
      left
      obtain ⟨r, hx⟩ := commit_exec htracked hs hcommit
      exact service_moves hx a
    | saveModel rendered obj edit =>
      by_cases ha : obj.pk = a
      · exact .inr ⟨call, rendered, obj, edit, rfl, ha⟩
      · left
        have hdb := congrArg (fun s => s.dossier a) (saveModel_commit hrun hs hcommit)
        have hsame : c'.dossier a = c.dossier a := hdb.trans (amend_other _ _ _ (Ne.symm ha))
        rw [hsame]
        exact ⟨.aside, .aside⟩

/-- A step whose save is up to date changes no status without a row. -/
theorem logged_step (hrun : BackOfficeRun shown db before c)
    (hfresh : c.Meets (SavesUpToDate shown a) ev) (hs : (backOffice shown).step c ev = some c') :
    Continues (c.dossier a) (c'.dossier a) := by
  rcases backOffice_step hrun hs a with ⟨act, hm⟩ | ⟨call, rendered, obj, edit, hc, rfl⟩
  · exact hm.continues
  · rw [saveModel_dossier hrun hs hc]
    exact (hfresh call _ hc rendered obj edit rfl rfl).continues

/-- In a run of the services and the admin site no status changes without a row in the
log, and no edit of a text undoes what the services wrote, exactly when every save of the
change form is up to date. -/
theorem admin_edits_unharmed_iff (hrun : BackOfficeRun shown db before c) :
    Unharmed shown a before c ↔ Met (SavesUpToDate shown a) before := by
  refine hrun.exact (I := Unharmed shown a) ?_ ?_ (fun _ _ _ h => h) ?_ ?_
  · exact ⟨List.isChain_singleton _, fun x hx => absurd hx List.not_mem_nil⟩
  · intro before c ev c' run h hfresh hs
    refine ⟨chain_snoc.mpr ⟨h.logged, logged_step run hfresh hs⟩, ?_⟩
    intro x hx
    rcases List.mem_append.mp hx with hx | hx
    · exact h.kept x hx
    rw [List.mem_singleton.mp hx]
    intro d hd call rendered obj edit hc hpk htext
    subst hpk
    rw [saveModel_dossier run hd hc]
    exact (hfresh call _ hc rendered obj edit rfl rfl).columns htext
  · intro before c ev c' h
    exact ⟨(chain_snoc.mp h.logged).1, fun x hx => h.kept x (List.mem_append_left _ hx)⟩
  · intro before c ev c' run h hspoilt hs hgood
    simp only [Config.Meets, SavesUpToDate] at hspoilt
    push Not at hspoilt
    obtain ⟨call, l, hc, rendered, obj, edit, rfl, rfl, hold⟩ := hspoilt
    have hafter := saveModel_dossier run hs hc
    rcases outdated (c.dossier obj.pk) obj.row hold with hlost | ⟨htext, hlost⟩
    · apply hlost
      rw [← hafter]
      exact (chain_snoc.mp hgood.logged).2
    · apply hlost
      have hkept := hgood.kept (c, ev) (List.mem_append_right _ (List.mem_singleton_self _)) c' hs
        call rendered obj edit hc rfl htext
      rw [hafter] at hkept
      exact hkept

end Steps

section Schedules

/-- The sample listing at a site whose officer may use the admin site. -/
def staffedDatabase : Database :=
  { sampleDatabase with users := fun u => { sampleDatabase.users u with isStaff := u == 0 } }

def retitled : AdminEdit := { title := some "Ankole heifer, in calf" }

/-- Three processes bring the sample listing into bidding. -/
def listingOpens : List AdminEvent :=
  [.call 0 (.service (.submitForReview 0 1))] ++ moves 0 8 ++
    [.call 1 (.service (.approve 0 0 ""))] ++ moves 1 18 ++
    [.call 2 (.service (.activateIfDue 0 none))] ++ moves 2 13

/-- The officer changes the title of a live auction, which is closed later. -/
theorem admin_edits_unharmed_sample : ∃ m : (backOffice id).Moment staffedDatabase,
    (m.now.dossier 0).row.title = "Ankole heifer, in calf" ∧
    (m.now.dossier 0).row.status = .closed ∧
    (Unharmed id 0 m.past m.now ↔ Met (SavesUpToDate id 0) m.past) := by
  obtain ⟨m, hm⟩ := scheduled_moment (backOffice id) staffedDatabase
    (listingOpens ++ [.call 5 (.change 0 0 retitled true)] ++ moves 5 6 ++
      [.outside (.tick 3600000000), .call 3 (.service (.closeAuction 0 none))] ++ moves 3 17)
    (fun c => (c.dossier 0).row.title == "Ankole heifer, in calf" &&
      (c.dossier 0).row.status == .closed) (by decide +kernel)
  simp only [Bool.and_eq_true, beq_iff_eq] at hm
  exact ⟨m, hm.1, hm.2, admin_edits_unharmed_iff m.run⟩

/-- The form is rendered while the auction is live, and submitted with a new title after
the auction was closed: it is live again, and no row of the log says so. -/
theorem closed_auction_reopened : ¬ ∀ (db : Database) (a : AuctionId)
    (m : (backOffice id).Moment db), Fresh (db.dossier a) →
    Met (fun _ l _ => l.SavesText) m.past → Unharmed id a m.past m.now := by
  intro hall
  obtain ⟨m, hmet, hm⟩ := scheduled_met (backOffice id) staffedDatabase (fun _ l _ => l.SavesText)
    (listingOpens ++ [.call 5 (.change 0 0 retitled true)] ++ moves 5 1 ++
      [.outside (.tick 3600000000), .call 3 (.service (.closeAuction 0 none))] ++ moves 3 17 ++
      moves 5 5)
    (fun c => (c.dossier 0).row.status == .live &&
      (c.dossier 0).logs.getLast?.any fun log => log.toStatus == .closed) (by decide +kernel)
  simp only [Bool.and_eq_true, beq_iff_eq, Option.any_eq_true] at hm
  obtain ⟨hlive, log, hlog, hclosed⟩ := hm
  have hlogged := (hall staffedDatabase 0 m sample_fresh hmet).logged
  obtain ⟨rows, hrows, hpath, _⟩ := m.run.chained
    (R := fun y z => Continues (y.dossier 0) (z.dossier 0)) hlogged (.of_same rfl rfl) Continues.trans
  rw [hrows] at hlog
  have hend := hpath.ends hlog
  rw [hlive, hclosed] at hend
  cases hend

end Schedules

end MbararaAuction
