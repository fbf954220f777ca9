import MbararaAuction.Transactions.Interleaving
import MbararaAuction.Transactions.Runs

namespace Transactions

section Solo
variable {S K E M R L C V : Type} [DecidableEq K]
variable {sys : System S K E M R L C V} {i : Nat} {call : C} {l : L}
variable {ok : R → Task S E R L} {err : E → Task S E R L}

/-- No process but `i` holds a lock. -/
def Config.Alone (c : Config S K E M R L C) (i : Nat) : Prop :=
  ∀ k, c.locks k = none ∨ c.locks k = some i

omit [DecidableEq K] in
theorem release_unlocked {c : Config S K E M R L C} (h : c.Alone i) (k : K) :
    (c.release i).locks k = none := by
  rcases h k with hk | hk <;> simp [Config.release, hk]

/-- What process `i` has in front of it after a transaction that ended with `out`. -/
def Task.resume (ok : R → Task S E R L) (err : E → Task S E R L) : Except E R → Task S E R L
  | .ok r => ok r
  | .error e => err e

variable (sys) in
/-- Undisturbed, the rest of a transaction does what `Tx.run` says. -/
theorem reach_end (rest : Tx S K E M R) (c : Config S K E M R L C) (work : S → S)
    (hi : c.sessions i = .busy call l rest work ok err) (ha : c.Alone i) :
    ∃ c', Reachable sys.step c c' ∧ (∀ k, c'.locks k = none) ∧
      c'.world = { (rest.run { c.world with db := work c.db }).2 with
        db := match (rest.run { c.world with db := work c.db }).1 with
          | .ok _ => (rest.run { c.world with db := work c.db }).2.db
          | .error _ => c.db } ∧
      c'.sessions = Function.update c.sessions i (.ready call
        (Task.resume ok err (rest.run { c.world with db := work c.db }).1)) := by
  induction rest generalizing c work with
  | ret r =>
    refine ⟨((c.write (work c.db)).release i).place i (.ready call (ok r)),
      .single (.act i) ?_, release_unlocked (c := c.write (work c.db)) ha, rfl, rfl⟩
    simp only [System.step, System.act, hi, Config.advance]
  | raise e =>
    refine ⟨(c.release i).place i (.ready call (err e)), .single (.act i) ?_,
      release_unlocked ha, rfl, rfl⟩
    simp only [System.step, System.act, hi, Config.advance]
  | lock k p ih =>
    obtain ⟨c', hr, hl, hw, hs⟩ := ih ((c.take i k).place i (.busy call l p work ok err)) work
      (Function.update_self ..) (by
        intro k'
        by_cases hk : k' = k
        · subst hk
          exact .inr (Function.update_self ..)
        · have hk' := ha k'
          simpa only [Config.place, Config.take, Function.update_of_ne hk] using hk')
    refine ⟨c', Reachable.trans (.single (.act i) ?_) hr, hl, hw, ?_⟩
    · simp only [System.step, System.act, hi, Config.advance, if_pos (ha k)]
    · exact hs.trans (Function.update_idem ..)
  | stmt f p ih =>
    obtain ⟨c', hr, hl, hw, hs⟩ := ih (work c.db)
      (c.place i (.busy call l (p (work c.db)) (f ∘ work) ok err)) (f ∘ work)
      (Function.update_self ..) ha
    refine ⟨c', Reachable.trans (.single (.act i) ?_) hr, hl, hw, ?_⟩
    · simp only [System.step, System.act, hi, Config.advance]
    · exact hs.trans (Function.update_idem ..)
  | peek p ih =>
    obtain ⟨c', hr, hl, hw, hs⟩ := ih (work c.db)
      (c.place i (.busy call l (p (work c.db)) work ok err)) work (Function.update_self ..) ha
    refine ⟨c', Reachable.trans (.single (.act i) ?_) hr, hl, hw, ?_⟩
    · simp only [System.step, System.act, hi, Config.advance]
    · exact hs.trans (Function.update_idem ..)
  | fresh p ih =>
    obtain ⟨c', hr, hl, hw, hs⟩ := ih c.world.seq
      ({ c with world := { c.world with seq := c.world.seq + 1 } }.place i
        (.busy call l (p c.world.seq) work ok err)) work (Function.update_self ..) ha
    refine ⟨c', Reachable.trans (.single (.act i) ?_) hr, hl, hw, ?_⟩
    · simp only [System.step, System.act, hi, Config.advance]
    · exact hs.trans (Function.update_idem ..)
  | publish m p ih =>
    obtain ⟨c', hr, hl, hw, hs⟩ := ih
      ({ c with world := { c.world with queue := c.world.queue ++ [m] } }.place i
        (.busy call l p work ok err)) work (Function.update_self ..) ha
    refine ⟨c', Reachable.trans (.single (.act i) ?_) hr, hl, hw, ?_⟩
    · simp only [System.step, System.act, hi, Config.advance]
    · exact hs.trans (Function.update_idem ..)

variable (sys) in
/-- Undisturbed, a process does what `Task.run` says. -/
theorem reach_done (t : Task S E R L) (c : Config S K E M R L C)
    (hi : c.sessions i = .ready call t) (hl : ∀ k, c.locks k = none) :
    ∃ c', Reachable sys.step c c' ∧ (∀ k, c'.locks k = none) ∧
      c'.world = (t.run sys c.world).2 ∧
      c'.sessions = Function.update c.sessions i (.ready call
        (Task.resume .done .fail (t.run sys c.world).1)) := by
  induction t generalizing c with
  | done r =>
    exact ⟨c, .refl, hl, rfl, (Function.update_eq_self_iff.mpr hi.symm).symm⟩
  | fail e =>
    exact ⟨c, .refl, hl, rfl, (Function.update_eq_self_iff.mpr hi.symm).symm⟩
  | look rest ih =>
    obtain ⟨c', hr, hl', hw, hs⟩ := ih c.db (c.place i (.ready call (rest c.db)))
      (Function.update_self ..) hl
    refine ⟨c', Reachable.trans (.single (.act i) ?_) hr, hl', hw, ?_⟩
    · simp only [System.step, System.act, hi]
    · exact hs.trans (Function.update_idem ..)
  | tx l ok err ihok iherr =>
    obtain ⟨m, hbegin, hunlocked, hworld, hsessions⟩ := reach_end sys (sys.prog l)
      (c.place i (.busy call l (sys.prog l) id ok err)) id (Function.update_self ..)
      (fun k => .inl (hl k))
    have hstart : Reachable sys.step c m := Reachable.trans (.single (.act i) (by
      simp only [System.step, System.act, hi])) hbegin
    simp only [Config.place, Function.update_idem, id_eq] at hworld hsessions
    simp only [Task.run, Tx.atomic]
    cases hrun : (sys.prog l).run c.world with
    | mk out w =>
      simp only [hrun] at hworld hsessions
      cases out with
      | ok r =>
        have hready : m.sessions i = .ready call (ok r) := by
          rw [hsessions]
          exact Function.update_self ..
        obtain ⟨c', hr, hl', hw, hs⟩ := ihok r m hready hunlocked
        rw [hsessions, Function.update_idem] at hs
        rw [hworld] at hw hs
        exact ⟨c', hstart.trans hr, hl', hw, hs⟩
      | error e =>
        have hready : m.sessions i = .ready call (err e) := by
          rw [hsessions]
          exact Function.update_self ..
        obtain ⟨c', hr, hl', hw, hs⟩ := iherr e m hready hunlocked
        rw [hsessions, Function.update_idem] at hs
        rw [hworld] at hw hs
        exact ⟨c', hstart.trans hr, hl', hw, hs⟩

/-- A request served alone is one schedule of the interleaved system. -/
theorem serve_reachable (c : Config S K E M R L C) (w : World S M) (rq : Request C V)
    (hi : c.sessions i = .idle) (hl : ∀ k, c.locks k = none)
    (hs : sys.serve c.world rq = some w) :
    ∃ c', Reachable sys.step c c' ∧ (∀ k, c'.locks k = none) ∧ c'.world = w ∧
      ∀ j, j ≠ i → c'.sessions j = c.sessions j := by
  cases rq with
  | outside v =>
    simp only [System.serve, Option.some.injEq] at hs
    exact ⟨_, .single (.outside v) rfl, hl, hs, fun _ _ => rfl⟩
  | call call =>
    simp only [System.serve, Option.some.injEq] at hs
    obtain ⟨c', hr, hl', hw, hsess⟩ := reach_done sys (sys.body call)
      (c.place i (.ready call (sys.body call))) (Function.update_self ..) hl
    refine ⟨c', Reachable.trans (.single (.call i call) ?_) hr, hl', hw.trans hs, ?_⟩
    · simp only [System.step, hi]
    · intro j hj
      rw [hsess]
      simp only [Config.place, Function.update_of_ne hj]

/-- Whatever requests served one after another lead to, the interleaved system
reaches. Every request is given to a process of its own. -/
theorem served_reachable {db : S} {before : List (World S M × Request C V)} {w : World S M}
    (hrun : Run sys.serve ⟨db, 0, []⟩ before w) :
    ∃ c, Reachable sys.step (Config.initial db) c ∧ (∀ k, c.locks k = none) ∧ c.world = w ∧
      ∀ j, before.length ≤ j → c.sessions j = .idle := by
  induction hrun with
  | start => exact ⟨Config.initial db, .refl, fun _ => rfl, rfl, fun _ _ => rfl⟩
  | @snoc before w w' rq run taken ih =>
    obtain ⟨c, hr, hl, rfl, hidle⟩ := ih
    have hfree := hidle before.length (le_refl _)
    obtain ⟨c', hr', hl', hw, hothers⟩ := serve_reachable c w' rq hfree hl taken
    refine ⟨c', hr.trans hr', hl', hw, fun j hj => ?_⟩
    rw [List.length_append, List.length_singleton] at hj
    rw [hothers j (by omega)]
    exact hidle j (by omega)

end Solo

end Transactions
