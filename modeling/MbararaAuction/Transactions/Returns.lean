import Mathlib.Data.Finset.Card
import MbararaAuction.Transactions.Rules

namespace Transactions

section Definitions
variable {S K E M R L C V : Type}

/-- The task returns only after it has committed a transaction that `P` picks. -/
def Task.Passes (P : L → Bool) : Task S E R L → Prop
  | done _ => False
  | fail _ => True
  | look rest => ∀ s, (rest s).Passes P
  | tx l ok err => (P l = true ∨ ∀ r, (ok r).Passes P) ∧ ∀ e, (err e).Passes P

/-- The call that a process has returned from, and what it returned. -/
def Task.result : Option (C × Task S E R L) → Option (C × R)
  | some (call, .done r) => some (call, r)
  | _ => none

/-- The call and the value with which this event ends it. -/
def System.returns [DecidableEq K] (sys : System S K E M R L C V) (c : Config S K E M R L C)
    (ev : Event C V) : Option (C × R) :=
  match ev.process, sys.step c ev with
  | some i, some c' =>
    if (Task.result (c.sessions i).task).isNone then Task.result (c'.sessions i).task else none
  | _, _ => none

/-- How many calls that `p` picks have returned. -/
def returnCount [DecidableEq K] (sys : System S K E M R L C V) (p : C → Bool)
    (before : List (Config S K E M R L C × Event C V)) : Nat :=
  before.countP (fun x => (sys.returns x.1 x.2).any (fun y => p y.1))

/-- A process inside such a call has a commit to make before it returns. -/
def Owes (p : C → Bool) (P : L → Bool) (t : Option (C × Task S E R L)) : Prop :=
  ∀ call rest, t = some (call, rest) → p call = true → rest.Passes P

/-- The books of a run: the processes of `ready` are on their way from a commit to
the return. -/
structure Balanced [DecidableEq K] (sys : System S K E M R L C V) (p : C → Bool) (P : L → Bool)
    (ready : Finset Nat) (before : List (Config S K E M R L C × Event C V))
    (c : Config S K E M R L C) : Prop where
  owes : ∀ i, i ∉ ready → Task.result (c.sessions i).task = none → Owes p P (c.sessions i).task
  count : returnCount sys p before + ready.card ≤ commitCount P before

end Definitions

section Counting
variable {S K E M R L C V : Type} [DecidableEq K] {sys : System S K E M R L C V} {db : S}
variable {before : List (Config S K E M R L C × Event C V)} {c c' : Config S K E M R L C}
variable {ev : Event C V} {p : C → Bool} {P : L → Bool}

theorem returnCount_snoc : returnCount sys p (before ++ [(c, ev)]) =
    returnCount sys p before + if (sys.returns c ev).any (fun y => p y.1) then 1 else 0 := by
  simp only [returnCount, List.countP_append, List.countP_singleton]

theorem returns_of_step (hs : sys.step c ev = some c') {i : Nat} (hi : ev.process = some i) :
    sys.returns c ev = if (Task.result (c.sessions i).task).isNone then
      Task.result (c'.sessions i).task else none := by
  simp only [System.returns, hi, hs]

omit [DecidableEq K] in
/-- Who owes a commit has not returned. -/
theorem Owes.unreturned {t : Option (C × Task S E R L)} (h : Owes p P t) {y : C × R}
    (hy : Task.result t = some y) : p y.1 = false := by
  obtain ⟨call, r⟩ := y
  unfold Task.result at hy
  split at hy
  · cases hy
    by_contra hp
    exact h _ _ rfl (Bool.eq_true_of_not_eq_false hp)
  · cases hy

omit [DecidableEq K] in
/-- A debt is kept until the commit. -/
theorem Owes.step {i : Nat} {t t' : Option (C × Task S E R L)} (h : Owes p P t)
    (hbody : ∀ call, p call = true → (sys.body call).Passes P)
    (hprogress : Progress sys c ev i t t')
    (hnone : (c.commits ev).any (fun y => P y.2) = false) : Owes p P t' := by
  intro call rest ht hp
  cases hprogress with
  | stay => exact h call rest ht hp
  | crash => cases ht
  | call =>
    cases ht
    exact hbody call hp
  | look =>
    cases ht
    exact h _ _ rfl hp _
  | @commit _ l ok err r commits =>
    cases ht
    rw [commits, Option.any_some] at hnone
    rcases (h _ _ rfl hp).1 with hl | hok
    · rw [hl] at hnone
      cases hnone
    · exact hok r
  | abort =>
    cases ht
    exact (h _ _ rfl hp).2 _
  | fault =>
    cases ht
    trivial

omit [DecidableEq K] in
/-- Nothing follows a return but the end of the process. -/
theorem Progress.after_return {i : Nat} {t t' : Option (C × Task S E R L)}
    (h : Progress sys c ev i t t') (hreturned : Task.result t ≠ none) (hnone : Task.result t' = none) :
    t' = none := by
  cases h with
  | stay => exact absurd hnone hreturned
  | crash => rfl
  | _ => exact absurd rfl hreturned

/-- Who neither commits nor was on the way to a return keeps its debt. -/
theorem Balanced.own {ready : Finset Nat} (h : Balanced sys p P ready before c)
    (hbody : ∀ call, p call = true → (sys.body call).Passes P) (hs : sys.step c ev = some c')
    {i : Nat} (hi : ev.process = some i) (hnot : i ∉ ready)
    (hnone : (c.commits ev).any (fun y => P y.2) = false) :
    (Task.result (c'.sessions i).task = none → Owes p P (c'.sessions i).task) ∧
      (sys.returns c ev).any (fun y => p y.1) = false := by
  have howes := h.owes i hnot
  have hprogress : Progress sys c ev i (c.sessions i).task (c'.sessions i).task := by
    rcases step_progress hs i with hsame | ⟨_, hprogress⟩
    · rw [hsame]
      exact .stay
    · exact hprogress
  rw [returns_of_step hs hi]
  cases hresult : Task.result (c.sessions i).task with
  | none =>
    have hafter := (howes hresult).step hbody hprogress hnone
    refine ⟨fun _ => hafter, ?_⟩
    cases hy : Task.result (c'.sessions i).task with
    | none => rfl
    | some y => exact hafter.unreturned hy
  | some y =>
    refine ⟨fun hlater => ?_, rfl⟩
    have hgone := hprogress.after_return (by rw [hresult]; exact Option.some_ne_none y) hlater
    rw [hgone]
    intro call rest ht
    cases ht

/-- A step of a process enters it on the books, or takes it off them. -/
theorem Balanced.step {ready : Finset Nat} (h : Balanced sys p P ready before c)
    (hbody : ∀ call, p call = true → (sys.body call).Passes P) (hs : sys.step c ev = some c') :
    ∃ ready, Balanced sys p P ready (before ++ [(c, ev)]) c' := by
  cases hi : ev.process with
  | none =>
    refine ⟨ready, ?_, ?_⟩
    · intro j hj
      rcases step_progress hs j with hsame | ⟨hp, _⟩
      · rw [hsame]
        exact h.owes j hj
      · rw [hi] at hp
        cases hp
    · have hret : sys.returns c ev = none := by simp only [System.returns, hi]
      have hcount := h.count
      rw [returnCount_snoc, commitCount_snoc, hret]
      simp only [Option.any_none, Bool.false_eq_true, ↓reduceIte]
      omega
  | some i =>
    have hothers : ∀ j, j ≠ i → (c'.sessions j).task = (c.sessions j).task := by
      intro j hj
      rcases step_progress hs j with hsame | ⟨hp, _⟩
      · exact hsame
      · rw [hi] at hp
        exact absurd (Option.some.inj hp).symm hj
    have hkeep : ∀ j, j ≠ i → j ∉ ready → Task.result (c'.sessions j).task = none →
        Owes p P (c'.sessions j).task := by
      intro j hj hjr
      rw [hothers j hj]
      exact h.owes j hjr
    have hcount := h.count
    by_cases hret : (sys.returns c ev).any (fun y => p y.1) = true
    · -- The process returns, and is off the books.
      refine ⟨ready.erase i, ?_, ?_⟩
      · intro j hj hresult
        have hji : j ≠ i := by
          rintro rfl
          rw [returns_of_step hs hi, hresult, ite_self] at hret
          cases hret
        exact hkeep j hji (fun hjr => hj (Finset.mem_erase.mpr ⟨hji, hjr⟩)) hresult
      · rw [returnCount_snoc, commitCount_snoc, if_pos hret]
        by_cases hir : i ∈ ready
        · have hcard := Finset.card_erase_add_one hir
          omega
        · rw [Finset.erase_eq_of_notMem hir, if_pos]
          · omega
          · by_contra hnone
            have hown := h.own hbody hs hi hir (Bool.eq_false_of_not_eq_true hnone)
            rw [hown.2] at hret
            cases hret
    by_cases hcom : (c.commits ev).any (fun y => P y.2) = true
    · -- It has committed, and is to return.
      refine ⟨insert i ready, ?_, ?_⟩
      · intro j hj
        obtain ⟨hji, hjr⟩ := not_or.mp (fun hor => hj (Finset.mem_insert.mpr hor))
        exact hkeep j hji hjr
      · rw [returnCount_snoc, commitCount_snoc, if_neg hret, if_pos hcom]
        have hcard := Finset.card_insert_le i ready
        omega
    · refine ⟨ready, ?_, ?_⟩
      · intro j hj
        by_cases hji : j = i
        · subst hji
          exact (h.own hbody hs hi hj (Bool.eq_false_of_not_eq_true hcom)).1
        · exact hkeep j hji hj
      · rw [returnCount_snoc, commitCount_snoc, if_neg hret, if_neg hcom]
        exact hcount

/-- No more of the calls return than commit. -/
theorem Run.returns_le (hbody : ∀ call, p call = true → (sys.body call).Passes P)
    (hrun : Run sys.step (Config.initial db) before c) :
    returnCount sys p before ≤ commitCount P before := by
  have hbalanced : ∃ ready, Balanced sys p P ready before c := by
    refine hrun.history (A := fun _ _ => True) ?_ ?_ (fun _ _ => trivial)
      (I := fun before c => ∃ ready, Balanced sys p P ready before c)
    · refine ⟨∅, ?_, le_refl 0⟩
      intro i _ _ call rest ht
      cases ht
    · rintro before c ev c' run ⟨ready, h⟩ - hs
      exact h.step hbody hs
  obtain ⟨ready, hbalanced⟩ := hbalanced
  have hcount := hbalanced.count
  omega

end Counting

end Transactions
