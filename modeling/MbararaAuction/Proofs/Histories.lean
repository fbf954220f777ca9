import MbararaAuction.Proofs.Discipline
import MbararaAuction.Proofs.Refinement
import MbararaAuction.Transactions.Solo

namespace Transactions
open MbararaAuction

/-- What is committed about the auction `a`. -/
abbrev Config.dossier {R L C : Type} (c : Config Database RowKey PyError Nat R L C)
    (a : AuctionId) : Dossier := c.world.db.dossier a

end Transactions

namespace MbararaAuction
open Transactions Locking

seal Tx.Exec

/-- The services at work: any number of processes over one database. -/
abbrev Site := Config Database RowKey PyError Nat Value ServiceTx Call

abbrev SiteEvent := Event Call Outside

/-- A history of the services that began with the rows `db`. -/
abbrev SiteRun (db : Database) : List (Site × SiteEvent) → Site → Prop :=
  Run engine.step (Config.initial db)

section Systems
variable {R L C : Type} {sys : System Database RowKey PyError Nat R L C Outside}
variable {c c' : Config Database RowKey PyError Nat R L C} {ev : Event C Outside}

theorem outside_dossier (v : Outside) (s : Database) : (engine.outside v s).dossier = s.dossier := by
  cases v <;> rfl

/-- Of any system over the tables: without a commit nothing is new about an auction. -/
theorem aside_dossier {pr : Protection RowKey Database} (houtside : sys.outside = Outside.apply)
    (h : Tracked sys pr c) (hs : sys.step c ev = some c') (hc : c.commits ev = none)
    (a : AuctionId) : c'.dossier a = c.dossier a := by
  rcases step_aside h hs hc with he | ⟨v, he⟩
  · exact congrArg (fun s => s.dossier a) he
  · rw [houtside] at he
    exact (congrArg (fun s => s.dossier a) he).trans (congrFun (outside_dossier v _) a)

/-- A transaction of the services is a move of every auction. -/
theorem service_moves {l : ServiceTx} {s s' : Database} {r : Value}
    (hx : l.prog.Exec Anything s (.ok r) s') (a : AuctionId) :
    ∃ act, Move .any act (s.dossier a) (s'.dossier a) := by
  rcases service_dossier (fun b => any_admits _ b _) hx a with ⟨_, hsame⟩ | ⟨_, hm⟩
  · rw [hsame]
    exact ⟨.aside, .aside⟩
  · exact ⟨_, hm⟩

end Systems

section Steps
variable {db : Database} {before : List (Site × SiteEvent)} {c c' : Site} {ev : SiteEvent}
variable {a : AuctionId}

theorem outside_clock (v : Outside) (s : Database) : s.clock ≤ (engine.outside v s).clock := by
  cases v with
  | tick n =>
    change s.clock ≤ s.clock + n
    lia
  | setUser | setBidderProfile => exact le_refl _

/-- A commit about `a` is the move that its transaction names. -/
theorem commit_move (hrun : SiteRun db before c) (hs : engine.step c ev = some c') {call : Call}
    {l : ServiceTx} (hc : c.commits ev = some (call, l)) (ht : l.target = some a) :
    Move .any l.action (c.dossier a) (c'.dossier a) := by
  obtain ⟨r, hx⟩ := commit_exec (hrun.tracked disciplined) hs hc
  rcases service_dossier (fun b => any_admits _ b _) hx a with ⟨hne, _⟩ | ⟨_, hm⟩
  · exact absurd ht hne
  · exact hm

/-- Without such a commit nothing is new about `a`. -/
theorem step_elsewhere (hrun : SiteRun db before c) (hs : engine.step c ev = some c')
    (hc : ∀ call l, c.commits ev = some (call, l) → l.target ≠ some a) :
    c'.dossier a = c.dossier a := by
  have htracked := hrun.tracked disciplined
  cases hcommit : c.commits ev with
  | none => exact aside_dossier rfl htracked hs hcommit a
  | some x =>
    obtain ⟨r, hx⟩ := commit_exec htracked hs hcommit
    rcases service_dossier (fun b => any_admits _ b _) hx a with ⟨_, hsame⟩ | ⟨ht, _⟩
    · exact hsame
    · exact absurd ht (hc _ _ hcommit)

/-- One event, seen from one auction. -/
theorem step_dossier (hrun : SiteRun db before c) (hs : engine.step c ev = some c')
    (a : AuctionId) :
    (c'.dossier a = c.dossier a ∧ ∀ call l, c.commits ev = some (call, l) → l.target ≠ some a) ∨
    ∃ call l, c.commits ev = some (call, l) ∧ l.target = some a ∧
      Move .any l.action (c.dossier a) (c'.dossier a) := by
  by_cases h : ∃ call l, c.commits ev = some (call, l) ∧ l.target = some a
  · obtain ⟨call, l, hc, ht⟩ := h
    exact .inr ⟨call, l, hc, ht, commit_move hrun hs hc ht⟩
  · have hnone : ∀ call l, c.commits ev = some (call, l) → l.target ≠ some a :=
      fun call l hc ht => h ⟨call, l, hc, ht⟩
    exact .inl ⟨step_elsewhere hrun hs hnone, hnone⟩

theorem step_clock (hrun : SiteRun db before c) (hs : engine.step c ev = some c') :
    c.world.db.clock ≤ c'.world.db.clock := by
  have htracked := hrun.tracked disciplined
  cases hcommit : c.commits ev with
  | none =>
    rcases step_aside htracked hs hcommit with he | ⟨v, he⟩
    · rw [he]
    · rw [he]
      exact outside_clock v _
  | some x =>
    obtain ⟨r, hx⟩ := commit_exec htracked hs hcommit
    exact (service_clock hx).ge

end Steps

section Rules
variable {db : Database} {before : List (Site × SiteEvent)} {c : Site} {a : AuctionId}

/-- What every move keeps of a dossier holds of it throughout every run. -/
theorem run_dossier {I : Dossier → Prop} (hrun : SiteRun db before c) (hfirst : I (db.dossier a))
    (hmove : ∀ act d d', I d → Move .any act d d' → I d') : I (c.dossier a) := by
  refine hrun.history (I := fun _ c => I (c.dossier a)) (A := fun _ _ => True) hfirst ?_
    (fun _ _ => trivial)
  intro before c ev c' run hi _ hs
  rcases step_dossier run hs a with ⟨hsame, _⟩ | ⟨_, _, _, _, hm⟩
  · rwa [hsame]
  · exact hmove _ _ _ hi hm

/-- What every move relates, any two moments of a run are related by. -/
theorem leads_dossier {I : Dossier → Prop} {R : Dossier → Dossier → Prop}
    {m m' : engine.Moment db} (h : m.Leads m') (hrefl : ∀ d, R d d)
    (htrans : ∀ {d e f}, R d e → R e f → R d f)
    (hinv : ∀ m : engine.Moment db, I (m.now.dossier a))
    (hmove : ∀ act d d', I d → Move .any act d d' → R d d') :
    R (m.now.dossier a) (m'.now.dossier a) := by
  refine h.along (R := fun c c' => R (c.dossier a) (c'.dossier a)) (fun c => hrefl _) htrans ?_
  intro m ev c' hs
  rcases step_dossier m.run hs a with ⟨hsame, _⟩ | ⟨_, _, _, _, hm⟩
  · rw [hsame]
    exact hrefl _
  · exact hmove _ _ _ (hinv m) hm

theorem leads_clock {m m' : engine.Moment db} (h : m.Leads m') :
    m.rows.clock ≤ m'.rows.clock :=
  h.along (R := fun c c' => c.world.db.clock ≤ c'.world.db.clock) (fun _ => le_refl _)
    le_trans (fun m _ _ hs => step_clock m.run hs)

/-- What requests served one after another lead to is a moment of the interleaved runs. -/
theorem served_moment (db : Database) (requests : List (Request Call Outside))
    (Q : World Database Nat → Bool) (h : (play engine.serve ⟨db, 0, []⟩ requests).any Q = true) :
    ∃ m : engine.Moment db, Q m.now.world = true := by
  obtain ⟨_, w, hserved, hw⟩ := play_reaches h
  obtain ⟨c, ⟨past, hrun⟩, _, rfl, _⟩ := served_reachable hserved
  exact ⟨⟨past, c, hrun⟩, hw⟩

end Rules

section Schedules

/-- The next `n` moves of process `i`. -/
def moves {C V : Type} (i n : Nat) : List (Event C V) := List.replicate n (.act i)

/-- Three processes bring the sample listing into bidding. -/
def biddingOpens : List SiteEvent :=
  [.call 0 (.submitForReview 0 1)] ++ moves 0 8 ++ [.call 1 (.approve 0 0 "")] ++ moves 1 18 ++
    [.call 2 (.activateIfDue 0 none)] ++ moves 2 13

end Schedules

end MbararaAuction
