import Mathlib.Data.DFinsupp.WellFounded
import Mathlib.SetTheory.Ordinal.Rank
import MbararaAuction.Transactions.Solo
import MbararaAuction.Transactions.Waiting

namespace Transactions

section Moves
variable {S K E M R L C V : Type} (sys : System S K E M R L C V)

/-- What a session becomes when its process moves. -/
inductive Session.Next : Session S K E M R L C → Session S K E M R L C → Prop where
  | look {call rest} (s : S) : Next (.ready call (.look rest)) (.ready call (rest s))
  | enter {call l ok err} :
      Next (.ready call (.tx l ok err)) (.busy call l (sys.prog l) id ok err)
  | ret {call l r work ok err} : Next (.busy call l (.ret r) work ok err) (.ready call (ok r))
  | raise {call l e work ok err} : Next (.busy call l (.raise e) work ok err) (.ready call (err e))
  | lock {call l k p work ok err} :
      Next (.busy call l (.lock k p) work ok err) (.busy call l p work ok err)
  | stmt {call l f p work ok err} (s : S) :
      Next (.busy call l (.stmt f p) work ok err) (.busy call l (p s) (f ∘ work) ok err)
  | peek {call l p work ok err} (s : S) :
      Next (.busy call l (.peek p) work ok err) (.busy call l (p s) work ok err)
  | fresh {call l p work ok err} (n : Nat) :
      Next (.busy call l (.fresh p) work ok err) (.busy call l (p n) work ok err)
  | publish {call l m p work ok err} :
      Next (.busy call l (.publish m p) work ok err) (.busy call l p work ok err)

/-- The call that a session is about. -/
def Session.call : Session S K E M R L C → Option C
  | idle => none
  | ready call _ | busy call _ _ _ _ _ => some call

variable {sys} {c c' : Config S K E M R L C} {i : Nat} {x y : Session S K E M R L C}

theorem Session.Next.same_call (h : x.Next sys y) : y.call = x.call := by
  cases h <;> rfl

/-- Nobody moves for ever: first the transactions, by induction on their bodies. -/
theorem acc_busy {call : C} {l : L} {ok : R → Task S E R L} {err : E → Task S E R L}
    (hok : ∀ r, Acc (fun y x => Session.Next sys x y) (.ready call (ok r)))
    (herr : ∀ e, Acc (fun y x => Session.Next sys x y) (.ready call (err e)))
    (p : Tx S K E M R) (work : S → S) :
    Acc (fun y x => Session.Next sys x y) (.busy call l p work ok err) := by
  induction p generalizing work with
  | ret r =>
    constructor
    intro y hy
    cases hy
    exact hok r
  | raise e =>
    constructor
    intro y hy
    cases hy
    exact herr e
  | lock k p ih =>
    constructor
    intro y hy
    cases hy
    exact ih work
  | stmt f p ih =>
    constructor
    intro y hy
    cases hy with
    | stmt s => exact ih s _
  | peek p ih =>
    constructor
    intro y hy
    cases hy with
    | peek s => exact ih s work
  | fresh p ih =>
    constructor
    intro y hy
    cases hy with
    | fresh n => exact ih n work
  | publish m p ih =>
    constructor
    intro y hy
    cases hy
    exact ih work

theorem acc_ready (call : C) (t : Task S E R L) :
    Acc (fun y x => Session.Next sys x y) (Session.ready call t : Session S K E M R L C) := by
  induction t with
  | done r =>
    constructor
    intro y hy
    cases hy
  | fail e =>
    constructor
    intro y hy
    cases hy
  | look rest ih =>
    constructor
    intro y hy
    cases hy with
    | look s => exact ih s
  | tx l ok err ihok iherr =>
    constructor
    intro y hy
    cases hy
    exact acc_busy ihok iherr _ _

variable (sys) in
theorem next_wellFounded : WellFounded (fun y x : Session S K E M R L C => x.Next sys y) := by
  constructor
  intro x
  cases x with
  | idle =>
    constructor
    intro y hy
    cases hy
  | ready call t => exact acc_ready call t
  | busy call l p work ok err =>
    exact acc_busy (fun r => acc_ready call _) (fun e => acc_ready call _) p work

variable (sys) in
/-- What is left to do in a session. -/
noncomputable def Session.left (x : Session S K E M R L C) : Ordinal.{0} :=
  ((next_wellFounded sys).apply x).rank

theorem Session.Next.left_lt (h : x.Next sys y) : y.left sys < x.left sys :=
  ((next_wellFounded sys).apply x).rank_lt_of_rel h

variable [DecidableEq K]

/-- A move of process `i` is a move of its session, and of no other. -/
theorem act_next (hs : sys.act c i = some c') :
    ∃ y, (c.sessions i).Next sys y ∧ c'.sessions = Function.update c.sessions i y := by
  unfold System.act at hs
  split at hs
  · cases hs
  · next hi =>
    rw [hi]
    split at hs
    · cases hs
    · cases hs
    · cases hs
      exact ⟨_, .look _, rfl⟩
    · cases hs
      exact ⟨_, .enter, rfl⟩
  · next call l rest work ok err hi =>
    rw [hi]
    cases rest with
    | ret r =>
      cases hs
      exact ⟨_, .ret, rfl⟩
    | raise e =>
      cases hs
      exact ⟨_, .raise, rfl⟩
    | lock k p =>
      simp only [Config.advance] at hs
      split at hs
      · cases hs
        exact ⟨_, .lock, rfl⟩
      · cases hs
    | stmt f p =>
      cases hs
      exact ⟨_, .stmt _, rfl⟩
    | peek p =>
      cases hs
      exact ⟨_, .peek _, rfl⟩
    | fresh p =>
      cases hs
      exact ⟨_, .fresh _, rfl⟩
    | publish m p =>
      cases hs
      exact ⟨_, .publish, rfl⟩

/-- From the process `n` on nobody has come yet. -/
def Config.Few (c : Config S K E M R L C) (n : Nat) : Prop := ∀ i, n ≤ i → c.sessions i = .idle

theorem act_few {n : Nat} (h : c.Few n) (hs : sys.act c i = some c') : c'.Few n ∧ i < n := by
  obtain ⟨y, hy, hsessions⟩ := act_next hs
  have hi : i < n := by
    by_contra hge
    rw [h i (Nat.le_of_not_lt hge)] at hy
    cases hy
  refine ⟨fun j hj => ?_, hi⟩
  rw [hsessions, Function.update_of_ne (by omega)]
  exact h j hj

theorem few_step {n : Nat} {ev : Event C V} (h : c.Few n) (hs : sys.step c ev = some c') :
    ∃ n, c'.Few n := by
  refine ⟨max n ((ev.process.getD 0) + 1), fun j hj => ?_⟩
  rw [step_other hs]
  · exact h j (by omega)
  · intro he
    rw [he, Option.getD_some] at hj
    omega

/-- At any moment only so many processes have come. -/
theorem Run.few {db : S} {before : List (Config S K E M R L C × Event C V)}
    (hrun : Run sys.step (Config.initial db) before c) : ∃ n, c.Few n := by
  refine hrun.invariant (I := fun c => ∃ n, c.Few n) ⟨0, fun _ _ => rfl⟩ ?_
  intro c ev c' h hs
  obtain ⟨n, h⟩ := h
  exact few_step h hs

/-- What is left to do, process by process. -/
noncomputable def Config.remaining (sys : System S K E M R L C V) (c : Config S K E M R L C) (n : Nat) :
    Fin n → Ordinal.{0} :=
  fun i => (c.sessions i).left sys

theorem remaining_act {n : Nat} (h : c.Few n) (hs : sys.act c i = some c') :
    c'.remaining sys n < c.remaining sys n := by
  obtain ⟨y, hy, hsessions⟩ := act_next hs
  have hless := hy.left_lt
  have hat : c'.sessions i = y := by
    rw [hsessions, Function.update_self]
  have hother : ∀ j, j ≠ i → c'.sessions j = c.sessions j := by
    intro j hj
    rw [hsessions, Function.update_of_ne hj]
  refine Pi.lt_def.mpr ⟨fun j => ?_, ⟨i, (act_few h hs).2⟩, ?_⟩
  · simp only [Config.remaining]
    by_cases hj : (j : Nat) = i
    · rw [hj, hat]
      exact hless.le
    · rw [hother j hj]
  · simp only [Config.remaining, hat]
    exact hless

/-- Where somebody can always move, everybody gets to the end by moving. `I` is what the
moves keep. -/
theorem finish_by_moves {I : Config S K E M R L C → Prop}
    (hkeep : ∀ c i c', I c → sys.act c i = some c' → I c')
    (hmover : ∀ c, I c → ∀ i, (c.sessions i).unfinished = true →
      ∃ j, (sys.act c j).isSome = true) {n : Nat} (hc : I c) (hfew : c.Few n) :
    ∃ after c', Run sys.step c after c' ∧ (∀ x ∈ after, ∃ i, x.2 = .act i) ∧ I c' ∧
      ∀ i, (c'.sessions i).call = (c.sessions i).call ∧ (c'.sessions i).unfinished = false := by
  generalize hleft : c.remaining sys n = left
  induction left using WellFoundedLT.induction generalizing c with
  | _ left ih =>
    by_cases hall : ∀ i, (c.sessions i).unfinished = false
    · refine ⟨[], c, .start, ?_, hc, fun i => ⟨rfl, hall i⟩⟩
      exact fun x hx => absurd hx List.not_mem_nil
    · push Not at hall
      obtain ⟨i, hi⟩ := hall
      obtain ⟨j, hj⟩ := hmover c hc i (Bool.eq_true_of_not_eq_false hi)
      obtain ⟨c₁, hs⟩ := Option.isSome_iff_exists.mp hj
      have hlower := remaining_act hfew hs
      rw [hleft] at hlower
      obtain ⟨after, c', hrun, hacts, hc', hends⟩ :=
        ih _ hlower (hkeep _ _ _ hc hs) (act_few hfew hs).1 rfl
      have htaken : sys.step c (.act j) = some c₁ := hs
      refine ⟨_, c', (Run.start.snoc htaken).trans hrun, ?_, hc', fun m => ?_⟩
      · intro x hx
        rcases List.mem_append.mp hx with hx | hx
        · rw [List.nil_append, List.mem_singleton] at hx
          exact ⟨j, congrArg Prod.snd hx⟩
        · exact hacts x hx
      · obtain ⟨hcall, hend⟩ := hends m
        refine ⟨hcall.trans ?_, hend⟩
        obtain ⟨y, hy, hsessions⟩ := act_next hs
        rw [hsessions]
        by_cases hm : m = j
        · rw [hm, Function.update_self]
          exact hy.same_call
        · rw [Function.update_of_ne hm]

variable (sys) in
/-- At a moment when no lock is left, somebody can come and be served alone. -/
theorem moment_serves {db : S} (m : sys.Moment db) (hquiet : ∀ k, m.now.locks k = none) (call : C) :
    ∃ m', m.Leads m' ∧ (∀ k, m'.now.locks k = none) ∧
      m'.now.world = ((sys.body call).run sys m.now.world).2 := by
  obtain ⟨n, hfew⟩ := m.run.few
  obtain ⟨c', ⟨after, hrun⟩, hlocks, hworld, _⟩ := serve_reachable m.now _ (.call call)
    (hfew n (Nat.le_refl n)) hquiet (rfl : sys.serve m.now.world (.call call) = some _)
  exact ⟨⟨_, c', m.run.trans hrun⟩, ⟨after, hrun, rfl⟩, hlocks, hworld⟩

end Moves

end Transactions
