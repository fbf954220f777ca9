import MbararaAuction.Transactions.Rules

namespace Transactions

section Failures
variable {S K E M R L C V : Type}

/-- Process `i` makes its next move, or a fault strikes it. -/
def Event.Of (i : Nat) : Event C V → Prop
  | .act j | .fault j => j = i
  | .outside _ | .call _ _ | .crash _ => False

instance {i : Nat} (ev : Event C V) : Decidable (ev.Of i) := by
  unfold Event.Of
  split <;> infer_instance

/-- How the call of a process has ended, if it has. -/
def Session.outcome : Session S K E M R L C → Option (Except E R)
  | ready _ (.done r) => some (.ok r)
  | ready _ (.fail e) => some (.error e)
  | _ => none

/-- However the task ends that nobody disturbs, and that faults strike only if `A`: with
the number of transactions committed by then, what it ends in and the rows it leaves, `Q`
holds. `n` of them are committed already. -/
def Task.Ensures (sys : System S K E M R L C V) (A : Prop) (Q : Nat → Except E R → S → Prop)
    (n : Nat) : Task S E R L → S → Prop
  | done r, s => Q n (.ok r) s
  | fail e, s => Q n (.error e) s
  | look rest, s => (rest s).Ensures sys A Q n s ∧ (A → Q n (.error sys.fault) s)
  | tx l ok err, s =>
    (∀ r s', (sys.prog l).Exec Exact s (.ok r) s' → (ok r).Ensures sys A Q (n + 1) s') ∧
      (∀ e s', (sys.prog l).Exec Exact s (.error e) s' → (err e).Ensures sys A Q n s) ∧
      (A → (err sys.fault).Ensures sys A Q n s)

/-- No exception is caught. -/
def Task.Strict : Task S E R L → Prop
  | done _ | fail _ => True
  | look rest => ∀ s, (rest s).Strict
  | tx _ ok err => (∀ r, (ok r).Strict) ∧ ∀ e, err e = .fail e

/-- What remains to be said of a process that has run undisturbed. -/
def Session.Ensures (sys : System S K E M R L C V) (A : Prop) (Q : Nat → Except E R → S → Prop)
    (n : Nat) (s : S) : Session S K E M R L C → Prop
  | idle => False
  | ready _ task => task.Ensures sys A Q n s
  | busy _ l rest work ok err => (Task.tx l ok err).Ensures sys A Q n s ∧
      ∀ out s', rest.Exec Exact (work s) out s' → (sys.prog l).Exec Exact s out s'

variable {sys : System S K E M R L C V} {A : Prop} {Q : Nat → Except E R → S → Prop} {n : Nat}
variable {c c' : Config S K E M R L C} {ev : Event C V} {i : Nat}

theorem Session.Ensures.ends {x : Session S K E M R L C} {s : S} {out : Except E R}
    (h : x.Ensures sys A Q n s) (ho : x.outcome = some out) : Q n out s := by
  cases x with
  | idle => cases ho
  | busy call l rest work ok err => cases ho
  | ready call task =>
    cases task <;> cases ho
    · exact h
    · exact h

theorem Task.Ensures.mono {Q' : Nat → Except E R → S → Prop} {t : Task S E R L} {s : S}
    (hQ : ∀ n out s, Q n out s → Q' n out s) (h : t.Ensures sys A Q n s) :
    t.Ensures sys A Q' n s := by
  induction t generalizing n s with
  | done r => exact hQ _ _ _ h
  | fail e => exact hQ _ _ _ h
  | look rest ih => exact ⟨ih s h.1, fun hA => hQ _ _ _ (h.2 hA)⟩
  | tx l ok err ihok iherr =>
    exact ⟨fun r s' hx => ihok r (h.1 r s' hx), fun e s' hx => iherr e (h.2.1 e s' hx),
      fun hA => iherr _ (h.2.2 hA)⟩

/-- A task that runs alone ends as it ensures. -/
theorem Task.Ensures.run {t : Task S E R L} {w : World S M} (h : t.Ensures sys A Q n w.db) :
    ∃ m, Q m (t.run sys w).1 (t.run sys w).2.db := by
  induction t generalizing n w with
  | done r => exact ⟨n, h⟩
  | fail e => exact ⟨n, h⟩
  | look rest ih => exact ih w.db h.1
  | tx l ok err ihok iherr =>
    simp only [Task.run]
    rcases atomic_cases (sys.prog l) w with ⟨r, w', hrun, hx⟩ | ⟨e, w', s, hrun, hsame, hx⟩
    · rw [hrun]
      exact ihok r (h.1 r w'.db hx)
    · rw [hrun]
      apply iherr e
      rw [hsame]
      exact h.2.1 e s hx

variable [DecidableEq K]

theorem ensures_act (h : (c.sessions i).Ensures sys A Q n c.db)
    (hs : sys.step c (.act i) = some c') : (c'.sessions i).Ensures sys A Q
      (n + if (c.commits (.act i : Event C V)).any (fun _ => true) then 1 else 0) c'.db := by
  simp only [System.step, System.act] at hs
  split at hs
  · cases hs
  · rename_i call task hi
    rw [hi] at h
    simp only [Config.commits, hi, Option.any_none, Bool.false_eq_true, if_false, Nat.add_zero]
    split at hs
    · cases hs
    · cases hs
    · cases hs
      simp only [Config.place, Function.update_self]
      exact h.1
    · cases hs
      simp only [Config.place, Function.update_self]
      exact ⟨h, fun _ _ hx => hx⟩
  · rename_i call l rest work ok err hi
    rw [hi] at h
    obtain ⟨htx, hrest⟩ := h
    simp only [Config.commits, hi]
    cases rest with
    | ret r =>
      cases hs
      simp only [Config.place, Function.update_self]
      exact htx.1 r _ (hrest _ _ ⟨rfl, rfl⟩)
    | raise e =>
      cases hs
      simp only [Config.place, Function.update_self]
      exact htx.2.1 e _ (hrest _ _ ⟨rfl, rfl⟩)
    | lock k p =>
      simp only [Config.advance] at hs
      split at hs
      · cases hs
        simp only [Config.place, Function.update_self]
        exact ⟨htx, hrest⟩
      · cases hs
    | stmt f p =>
      cases hs
      simp only [Config.place, Function.update_self]
      exact ⟨htx, hrest⟩
    | peek p =>
      cases hs
      simp only [Config.place, Function.update_self]
      exact ⟨htx, fun out s' hx => hrest out s' ⟨_, rfl, hx⟩⟩
    | fresh p =>
      cases hs
      simp only [Config.place, Function.update_self]
      exact ⟨htx, fun out s' hx => hrest out s' ⟨_, hx⟩⟩
    | publish m p =>
      cases hs
      simp only [Config.place, Function.update_self]
      exact ⟨htx, hrest⟩

theorem ensures_fault (h : (c.sessions i).Ensures sys A Q n c.db)
    (hs : sys.step c (.fault i) = some c') (hA : A) : (c'.sessions i).Ensures sys A Q n c'.db := by
  simp only [System.step, System.strike] at hs
  split at hs
  · cases hs
  · rename_i call task hi
    rw [hi] at h
    split at hs
    · cases hs
    · cases hs
    · cases hs
      simp only [Config.place, Function.update_self]
      exact h.2 hA
    · cases hs
      simp only [Config.place, Function.update_self]
      exact h.2.2 hA
  · rename_i hi
    rw [hi] at h
    cases hs
    simp only [Config.place, Function.update_self]
    exact h.1.2.2 hA

section Runs
variable {first : Config S K E M R L C} {before : List (Config S K E M R L C × Event C V)}
variable {call : C} {task : Task S E R L}

/-- A process that nobody disturbs ends as its task ensures. -/
theorem Run.ensures (hrun : Run sys.step first before c) (hi : first.sessions i = .ready call task)
    (htask : task.Ensures sys A Q 0 first.db) (hof : ∀ x ∈ before, x.2.Of i)
    (hA : ∀ x ∈ before, x.2 = .fault i → A) {out : Except E R}
    (ho : (c.sessions i).outcome = some out) : Q (commitCount (fun _ => true) before) out c.db := by
  have hstate : (c.sessions i).Ensures sys A Q (commitCount (fun _ => true) before) c.db := by
    refine hrun.history (I := fun before c =>
        (c.sessions i).Ensures sys A Q (commitCount (fun _ => true) before) c.db)
      (A := fun _ ev => ev.Of i ∧ (ev = .fault i → A)) ?_ ?_ fun x hx => ⟨hof x hx, hA x hx⟩
    · rw [hi]
      exact htask
    · rintro before c ev c' _ h ⟨hev, hfault⟩ hs
      rw [commitCount_snoc]
      cases ev with
      | outside | call | crash => exact hev.elim
      | act j =>
        cases hev
        exact ensures_act h hs
      | fault j =>
        cases hev
        exact ensures_fault h hs (hfault rfl)
  exact hstate.ends ho

/-- The process has in front of it only what catches no exception. -/
def Session.Strict : Session S K E M R L C → Prop
  | idle => True
  | ready _ task => task.Strict
  | busy _ l _ _ ok err => (Task.tx l ok err).Strict

theorem strict_step (h : (c.sessions i).Strict) (hs : sys.step c ev = some c') (hof : ev.Of i) :
    (c'.sessions i).Strict ∧
      (ev = .fault i → (c'.sessions i).outcome = some (.error sys.fault)) := by
  cases ev with
  | outside | call | crash => exact hof.elim
  | act j =>
    cases hof
    refine ⟨?_, fun h => by cases h⟩
    simp only [System.step, System.act] at hs
    split at hs
    · cases hs
    · rename_i call task hi
      rw [hi] at h
      split at hs
      · cases hs
      · cases hs
      · cases hs
        simp only [Config.place, Function.update_self]
        exact h _
      · cases hs
        simp only [Config.place, Function.update_self]
        exact h
    · rename_i call l rest work ok err hi
      rw [hi] at h
      cases rest with
      | lock k p =>
        simp only [Config.advance] at hs
        split at hs
        · cases hs
          simp only [Config.place, Function.update_self]
          exact h
        · cases hs
      | ret r =>
        cases hs
        simp only [Config.place, Function.update_self]
        exact h.1 r
      | raise e =>
        cases hs
        simp only [Config.place, Function.update_self, h.2 e]
        trivial
      | stmt | peek | fresh | publish =>
        cases hs
        simp only [Config.place, Function.update_self]
        exact h
  | fault j =>
    cases hof
    simp only [System.step, System.strike] at hs
    split at hs
    · cases hs
    · rename_i call task hi
      rw [hi] at h
      split at hs
      · cases hs
      · cases hs
      · cases hs
        refine ⟨?_, fun _ => ?_⟩ <;> simp only [Config.place, Function.update_self]
        · trivial
        · rfl
      · cases hs
        refine ⟨?_, fun _ => ?_⟩ <;> simp only [Config.place, Function.update_self, h.2]
        · trivial
        · rfl
    · rename_i hi
      rw [hi] at h
      cases hs
      refine ⟨?_, fun _ => ?_⟩ <;> simp only [Config.place, Function.update_self, h.2]
      · trivial
      · rfl

/-- A call that has ended makes no further move. -/
theorem ended_stuck {out : Except E R} (ho : (c.sessions i).outcome = some out) (hof : ev.Of i) :
    sys.step c ev = none := by
  generalize hi : c.sessions i = x at ho
  cases x with
  | idle | busy => cases ho
  | ready call task =>
    cases task with
    | look | tx => cases ho
    | done | fail =>
      cases ev with
      | outside | call | crash => exact hof.elim
      | act j =>
        cases hof
        simp only [System.step, System.act, hi]
      | fault j =>
        cases hof
        simp only [System.step, System.strike, hi]

/-- A fault ends a call that catches nothing. -/
theorem Run.struck (hrun : Run sys.step first before c) (hi : first.sessions i = .ready call task)
    (htask : task.Strict) (hof : ∀ x ∈ before, x.2.Of i) (hfault : ∃ x ∈ before, x.2 = .fault i) :
    (c.sessions i).outcome = some (.error sys.fault) := by
  have hstate : (c.sessions i).Strict ∧
      ((∃ x ∈ before, x.2 = .fault i) → (c.sessions i).outcome = some (.error sys.fault)) := by
    refine hrun.history (I := fun before c => (c.sessions i).Strict ∧
        ((∃ x ∈ before, x.2 = .fault i) → (c.sessions i).outcome = some (.error sys.fault)))
      (A := fun _ ev => ev.Of i) ⟨?_, fun ⟨x, hx, _⟩ => by cases hx⟩ ?_ hof
    · rw [hi]
      exact htask
    · rintro before c ev c' _ ⟨hstrict, hearlier⟩ hev hs
      obtain ⟨hstrict', hnow⟩ := strict_step hstrict hs hev
      refine ⟨hstrict', fun ⟨x, hx, hfault⟩ => ?_⟩
      rcases List.mem_append.mp hx with hx | hx
      · rw [ended_stuck (hearlier ⟨x, hx, hfault⟩) hev] at hs
        cases hs
      · rw [List.mem_singleton.mp hx] at hfault
        exact hnow hfault
  exact hstate.2 hfault

end Runs

end Failures

end Transactions
