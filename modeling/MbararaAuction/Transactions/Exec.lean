import MbararaAuction.Transactions.Program

namespace Transactions

/-- One execution of a transaction body as a single step, from visible rows to
visible rows. A `peek` returns any value that `sees` allows for the rows visible
at that moment; a drawn number is arbitrary, and the broker is not observed. -/
def Tx.Exec {S K E M α : Type} (sees : S → S → Prop) :
    Tx S K E M α → S → Except E α → S → Prop
  | ret a, s, out, s' => out = .ok a ∧ s' = s
  | raise e, s, out, s' => out = .error e ∧ s' = s
  | lock _ rest, s, out, s' => rest.Exec sees s out s'
  | stmt write rest, s, out, s' => (rest s).Exec sees (write s) out s'
  | peek rest, s, out, s' => ∃ u, sees s u ∧ (rest u).Exec sees s out s'
  | fresh rest, s, out, s' => ∃ n, (rest n).Exec sees s out s'
  | publish _ rest, s, out, s' => rest.Exec sees s out s'

/-- Peeks that return what is there. -/
def Exact {S : Type} (s u : S) : Prop := u = s

theorem exists_exact {S : Type} {s : S} {P : S → Prop} : (∃ u, Exact s u ∧ P u) ↔ P s := by
  simp [Exact]

/-- Peeks that may return anything. -/
def Anything {S : Type} (_ _ : S) : Prop := True

section Rules
variable {S K E M α β : Type} {sees : S → S → Prop} {s s' : S}

theorem exec_bind_ok (p : Tx S K E M α) (f : α → Tx S K E M β) (b : β) :
    (p >>= f).Exec sees s (.ok b) s' ↔
      ∃ a v, p.Exec sees s (.ok a) v ∧ (f a).Exec sees v (.ok b) s' := by
  change (p.bind f).Exec sees s (.ok b) s' ↔ _
  induction p generalizing s with
  | ret a => simp [Tx.bind, Tx.Exec, and_assoc]
  | raise e => simp [Tx.bind, Tx.Exec]
  | lock k rest ih => simpa only [Tx.bind, Tx.Exec] using ih
  | stmt write rest ih => simpa only [Tx.bind, Tx.Exec] using ih s
  | peek rest ih =>
    simp only [Tx.bind, Tx.Exec, ih]
    exact ⟨fun ⟨u, hu, a, v, hp, hf⟩ => ⟨a, v, ⟨u, hu, hp⟩, hf⟩,
      fun ⟨a, v, ⟨u, hu, hp⟩, hf⟩ => ⟨u, hu, a, v, hp, hf⟩⟩
  | fresh rest ih =>
    simp only [Tx.bind, Tx.Exec, ih]
    exact ⟨fun ⟨n, a, v, hp, hf⟩ => ⟨a, v, ⟨n, hp⟩, hf⟩,
      fun ⟨a, v, ⟨n, hp⟩, hf⟩ => ⟨n, a, v, hp, hf⟩⟩
  | publish m rest ih => simpa only [Tx.bind, Tx.Exec] using ih

theorem exec_bind_error (p : Tx S K E M α) (f : α → Tx S K E M β) (e : E) :
    (p >>= f).Exec sees s (.error e) s' ↔ p.Exec sees s (.error e) s' ∨
      ∃ a v, p.Exec sees s (.ok a) v ∧ (f a).Exec sees v (.error e) s' := by
  change (p.bind f).Exec sees s (.error e) s' ↔ _
  induction p generalizing s with
  | ret a => simp [Tx.bind, Tx.Exec, and_assoc]
  | raise e => simp [Tx.bind, Tx.Exec]
  | lock k rest ih => simpa only [Tx.bind, Tx.Exec] using ih
  | stmt write rest ih => simpa only [Tx.bind, Tx.Exec] using ih s
  | peek rest ih =>
    simp only [Tx.bind, Tx.Exec, ih]
    constructor
    · rintro ⟨u, hu, hp | ⟨a, v, hp, hf⟩⟩
      · exact .inl ⟨u, hu, hp⟩
      · exact .inr ⟨a, v, ⟨u, hu, hp⟩, hf⟩
    · rintro (⟨u, hu, hp⟩ | ⟨a, v, ⟨u, hu, hp⟩, hf⟩)
      · exact ⟨u, hu, .inl hp⟩
      · exact ⟨u, hu, .inr ⟨a, v, hp, hf⟩⟩
  | fresh rest ih =>
    simp only [Tx.bind, Tx.Exec, ih]
    constructor
    · rintro ⟨n, hp | ⟨a, v, hp, hf⟩⟩
      · exact .inl ⟨n, hp⟩
      · exact .inr ⟨a, v, ⟨n, hp⟩, hf⟩
    · rintro (⟨n, hp⟩ | ⟨a, v, ⟨n, hp⟩, hf⟩)
      · exact ⟨n, .inl hp⟩
      · exact ⟨n, .inr ⟨a, v, hp, hf⟩⟩
  | publish m rest ih => simpa only [Tx.bind, Tx.Exec] using ih

@[simp] theorem exec_pure (a : α) (out : Except E α) :
    (pure a : Tx S K E M α).Exec sees s out s' ↔ out = .ok a ∧ s' = s := Iff.rfl

@[simp] theorem exec_raise (e : E) (out : Except E α) :
    (Tx.raise e : Tx S K E M α).Exec sees s out s' ↔ out = .error e ∧ s' = s := Iff.rfl

@[simp] theorem exec_glance (f : S → α) (out : Except E α) :
    (Tx.glance f : Tx S K E M α).Exec sees s out s' ↔
      ∃ u, sees s u ∧ out = .ok (f u) ∧ s' = s := Iff.rfl

theorem exec_when (c : Prop) [Decidable c] (p : Tx S K E M Unit) (out : Except E Unit) :
    (Tx.when c p).Exec sees s out s' ↔
      (c ∧ p.Exec sees s out s') ∨ (¬ c ∧ out = .ok () ∧ s' = s) := by
  by_cases h : c <;> simp [Tx.when, Tx.Exec, h]

section Binds
variable {f : α → Tx S K E M β} {out : Except E β}

theorem exec_query_bind (g : S → α) :
    (Tx.query g >>= f).Exec sees s out s' ↔ (f (g s)).Exec sees s out s' := Iff.rfl

theorem exec_glance_bind (g : S → α) :
    (Tx.glance g >>= f).Exec sees s out s' ↔ ∃ u, sees s u ∧ (f (g u)).Exec sees s out s' := Iff.rfl

theorem exec_update_bind (g : S → S) {f : Unit → Tx S K E M β} :
    (Tx.update g >>= f).Exec sees s out s' ↔ (f ()).Exec sees (g s) out s' := Iff.rfl

theorem exec_refuse_bind (c : Prop) [Decidable c] (e : E) {f : Unit → Tx S K E M β} :
    (Tx.refuse c e >>= f).Exec sees s out s' ↔
      (c ∧ out = .error e ∧ s' = s) ∨ (¬ c ∧ (f ()).Exec sees s out s') := by
  change ((Tx.refuse c e).bind f).Exec sees s out s' ↔ _
  by_cases h : c <;> simp [Tx.refuse, Tx.bind, h]

theorem exec_require_bind (x : Option α) (e : E) :
    (Tx.require x e >>= f).Exec sees s out s' ↔
      (x = none ∧ out = .error e ∧ s' = s) ∨ ∃ a, x = some a ∧ (f a).Exec sees s out s' := by
  change ((Tx.require x e).bind f).Exec sees s out s' ↔ _
  cases x <;> simp [Tx.require, Tx.bind]

theorem exec_ofExcept_bind (x : Except E α) :
    (Tx.ofExcept x >>= f).Exec sees s out s' ↔
      (∃ e, x = .error e ∧ out = .error e ∧ s' = s) ∨
        ∃ a, x = .ok a ∧ (f a).Exec sees s out s' := by
  change ((Tx.ofExcept x).bind f).Exec sees s out s' ↔ _
  cases x <;> simp [Tx.ofExcept, Tx.bind]

end Binds

/-- A body whose result is only repackaged. -/
theorem exec_then_pure {p : Tx S K E M α} {g : α → β} {b : β}
    (hx : (p >>= fun a => pure (g a)).Exec sees s (.ok b) s') :
    ∃ a, b = g a ∧ p.Exec sees s (.ok a) s' := by
  obtain ⟨a, v, hp, hb, rfl⟩ := (exec_bind_ok ..).mp hx
  exact ⟨a, Except.ok.inj hb, hp⟩

theorem exec_then_pure_error {p : Tx S K E M α} {g : α → β} {e : E}
    (hx : (p >>= fun a => pure (g a)).Exec sees s (.error e) s') : p.Exec sees s (.error e) s' := by
  rcases (exec_bind_error ..).mp hx with hp | ⟨a, v, _, hb, _⟩
  · exact hp
  · cases hb

/-- A body that never raises, and that moves the rows along `R` only. -/
structure Tx.Quiet (R : S → S → Prop) (p : Tx S K E M α) : Prop where
  exec : ∀ {sees s out s'}, p.Exec sees s out s' → (∃ a, out = .ok a) ∧ R s s'

theorem Tx.Quiet.no_error {R : S → S → Prop} {p : Tx S K E M α} (hp : p.Quiet R) {e : E} :
    ¬ p.Exec sees s (.error e) s' := by
  intro hx
  obtain ⟨⟨a, ha⟩, _⟩ := hp.exec hx
  cases ha

/-- A quiet body in front of the rest only moves the rows along `R`. -/
theorem Tx.Quiet.skip {R : S → S → Prop} {p : Tx S K E M α} (hp : p.Quiet R)
    {f : α → Tx S K E M β} {out : Except E β} (hx : (p >>= f).Exec sees s out s') :
    ∃ a v, R s v ∧ (f a).Exec sees v out s' := by
  cases out with
  | ok b =>
    obtain ⟨a, v, hpx, hfx⟩ := (exec_bind_ok p f b).mp hx
    exact ⟨a, v, (hp.exec hpx).2, hfx⟩
  | error e =>
    rcases (exec_bind_error p f e).mp hx with hpx | ⟨a, v, hpx, hfx⟩
    · exact absurd hpx hp.no_error
    · exact ⟨a, v, (hp.exec hpx).2, hfx⟩

/-- A quiet body at the end. -/
theorem Tx.Quiet.last {R : S → S → Prop} {p : Tx S K E M α} (hp : p.Quiet R)
    {g : α → β} {b : β} (hx : (p >>= fun a => pure (g a)).Exec sees s (.ok b) s') :
    (∃ a, b = g a) ∧ R s s' := by
  obtain ⟨a, hb, hpx⟩ := exec_then_pure hx
  exact ⟨⟨a, hb⟩, (hp.exec hpx).2⟩

theorem Tx.Quiet.bind {R : S → S → Prop} (htrans : ∀ {a b c}, R a b → R b c → R a c)
    {p : Tx S K E M α} {f : α → Tx S K E M β} (hp : p.Quiet R) (hf : ∀ a, (f a).Quiet R) :
    (p >>= f).Quiet R := by
  refine ⟨fun {sees s out s'} hx => ?_⟩
  cases out with
  | ok b =>
    obtain ⟨a, v, hpx, hfx⟩ := (exec_bind_ok p f b).mp hx
    exact ⟨⟨b, rfl⟩, htrans (hp.exec hpx).2 ((hf a).exec hfx).2⟩
  | error e =>
    rcases (exec_bind_error p f e).mp hx with hpx | ⟨a, v, _, hfx⟩
    · exact absurd hpx hp.no_error
    · exact absurd hfx (hf a).no_error

theorem Tx.Quiet.forEach {R : S → S → Prop} (hrefl : ∀ a, R a a)
    (htrans : ∀ {a b c}, R a b → R b c → R a c) {p : α → Tx S K E M Unit}
    (hp : ∀ a, (p a).Quiet R) (xs : List α) : (Tx.forEach xs p).Quiet R := by
  induction xs with
  | nil =>
    refine ⟨fun hx => ?_⟩
    obtain ⟨rfl, rfl⟩ := hx
    exact ⟨⟨(), rfl⟩, hrefl _⟩
  | cons x xs ih => exact Tx.Quiet.bind (R := R) htrans (hp x) (fun _ => ih)

/-- Whatever it finds, the body raises only what `Q` allows. -/
structure Tx.Throws (Q : E → Prop) (p : Tx S K E M α) : Prop where
  exec : ∀ {sees s e s'}, p.Exec sees s (.error e) s' → Q e

theorem Tx.Quiet.throws {R : S → S → Prop} {Q : E → Prop} {p : Tx S K E M α} (hp : p.Quiet R) :
    p.Throws Q := ⟨fun hx => absurd hx hp.no_error⟩

theorem Tx.Throws.mono {Q Q' : E → Prop} {p : Tx S K E M α} (hp : p.Throws Q)
    (h : ∀ e, Q e → Q' e) : p.Throws Q' := ⟨fun hx => h _ (hp.exec hx)⟩

theorem Tx.Throws.bind {Q : E → Prop} {p : Tx S K E M α} {f : α → Tx S K E M β} (hp : p.Throws Q)
    (hf : ∀ a, (f a).Throws Q) : (p >>= f).Throws Q := by
  refine ⟨fun hx => ?_⟩
  rcases (exec_bind_error ..).mp hx with hx | ⟨a, _, _, hx⟩
  · exact hp.exec hx
  · exact (hf a).exec hx

theorem throws_pure {Q : E → Prop} (a : α) : (pure a : Tx S K E M α).Throws Q :=
  ⟨fun hx => by cases hx.1⟩

theorem Tx.Throws.map {Q : E → Prop} {p : Tx S K E M α} (hp : p.Throws Q) (g : α → β) :
    (g <$> p).Throws Q := hp.bind fun a => throws_pure (g a)

/-- Running a transaction alone is one of its executions. -/
theorem run_exec (p : Tx S K E M α) (w : World S M) :
    p.Exec Exact w.db (p.run w).1 (p.run w).2.db := by
  induction p generalizing w with
  | ret a => exact ⟨rfl, rfl⟩
  | raise e => exact ⟨rfl, rfl⟩
  | lock k rest ih => exact ih w
  | stmt write rest ih => exact ih w.db { w with db := write w.db }
  | peek rest ih => exact ⟨w.db, rfl, ih w.db w⟩
  | fresh rest ih => exact ⟨w.seq, ih w.seq { w with seq := w.seq + 1 }⟩
  | publish m rest ih => exact ih { w with queue := w.queue ++ [m] }

section Alone
variable {f : α → Tx S K E M β} {w : World S M}

theorem run_query_bind (g : S → α) : (Tx.query g >>= f).run w = (f (g w.db)).run w := rfl

theorem run_glance_bind (g : S → α) : (Tx.glance g >>= f).run w = (f (g w.db)).run w := rfl

theorem run_update_bind (g : S → S) {f : Unit → Tx S K E M β} :
    (Tx.update g >>= f).run w = (f ()).run { w with db := g w.db } := rfl

theorem run_draw_bind {f : Nat → Tx S K E M β} :
    (Tx.draw >>= f).run w = (f w.seq).run { w with seq := w.seq + 1 } := rfl

theorem run_refuse_bind (c : Prop) [Decidable c] (e : E) {f : Unit → Tx S K E M β} :
    (Tx.refuse c e >>= f).run w = if c then (.error e, w) else (f ()).run w := by
  change ((Tx.refuse c e).bind f).run w = _
  by_cases h : c
  · rw [Tx.refuse, if_pos h, if_pos h]
    rfl
  · rw [Tx.refuse, if_neg h, if_neg h]
    rfl

theorem run_bind (p : Tx S K E M α) : (p >>= f).run w = match p.run w with
    | (.ok a, w') => (f a).run w'
    | (.error e, w') => (.error e, w') := by
  change (p.bind f).run w = _
  induction p generalizing w with
  | ret a => rfl
  | raise e => rfl
  | lock k rest ih => exact ih
  | stmt write rest ih => exact ih w.db
  | peek rest ih => exact ih w.db
  | fresh rest ih => exact ih w.seq
  | publish m rest ih => exact ih

/-- Where no execution raises, neither does the run. -/
theorem run_ok {p : Tx S K E M α} (h : ∀ e s, ¬ p.Exec Exact w.db (.error e) s) :
    ∃ a w', p.run w = (.ok a, w') := by
  have hx := run_exec p w
  cases hrun : p.run w with
  | mk out w' =>
    rw [hrun] at hx
    cases out with
    | ok a => exact ⟨a, w', rfl⟩
    | error e => exact absurd hx (h e w'.db)

end Alone

/-- A transaction runs to its end, or it raises and leaves the rows alone. -/
theorem atomic_cases (p : Tx S K E M α) (w : World S M) :
    (∃ a w', p.atomic w = (.ok a, w') ∧ p.Exec Exact w.db (.ok a) w'.db) ∨
      ∃ e w' s, p.atomic w = (.error e, w') ∧ w'.db = w.db ∧ p.Exec Exact w.db (.error e) s := by
  have hx := run_exec p w
  unfold Tx.atomic
  cases hrun : p.run w with
  | mk out w' =>
    rw [hrun] at hx
    cases out with
    | ok a => exact .inl ⟨a, w', rfl, hx⟩
    | error e => exact .inr ⟨e, _, w'.db, rfl, rfl, hx⟩

/-- What a transaction has returned, it has executed. -/
theorem exec_of_atomic {p : Tx S K E M α} {w w' : World S M} {a : α}
    (h : p.atomic w = (.ok a, w')) : p.Exec Exact w.db (.ok a) w'.db := by
  rcases atomic_cases p w with ⟨b, v, hrun, hx⟩ | ⟨e, v, s, hrun, _, _⟩
  · rw [h] at hrun
    cases hrun
    exact hx
  · rw [h] at hrun
    cases hrun

/-- So it is outside any transaction. -/
theorem exec_of_run {p : Tx S K E M α} {w w' : World S M} {a : α}
    (h : p.run w = (.ok a, w')) : p.Exec Exact w.db (.ok a) w'.db := by
  have hx := run_exec p w
  rw [h] at hx
  exact hx

/-- A transaction that cannot raise on these rows runs to its end. -/
theorem atomic_ok {p : Tx S K E M α} {w : World S M}
    (h : ∀ e s, ¬ p.Exec Exact w.db (.error e) s) :
    ∃ a w', p.atomic w = (.ok a, w') ∧ p.Exec Exact w.db (.ok a) w'.db := by
  rcases atomic_cases p w with hok | ⟨e, _, s, _, _, hx⟩
  · exact hok
  · exact absurd hx (h e s)

end Rules

section Serving
variable {S K E M R L C V : Type} {sys : System S K E M R L C V}

/-- Run alone from the rows `s`, the task ends in rows that satisfy `I`. -/
def Task.Ends (sys : System S K E M R L C V) (I : S → Prop) : Task S E R L → S → Prop
  | done _, s | fail _, s => I s
  | look rest, s => (rest s).Ends sys I s
  | tx l ok err, s =>
    (∀ r s', (sys.prog l).Exec Exact s (.ok r) s' → (ok r).Ends sys I s') ∧
      ∀ e s', (sys.prog l).Exec Exact s (.error e) s' → (err e).Ends sys I s

/-- The task issues only transactions that `P` picks. -/
def Task.Only (P : L → Prop) : Task S E R L → Prop
  | done _ | fail _ => True
  | look rest => ∀ s, (rest s).Only P
  | tx l ok err => P l ∧ (∀ r, (ok r).Only P) ∧ ∀ e, (err e).Only P

/-- A task with new names issues nothing but the new names. -/
theorem Task.relabel_only {L' : Type} {name : L → L'} {P : L' → Prop} {t : Task S E R L}
    (h : ∀ l, P (name l)) : (t.relabel name).Only P := by
  induction t with
  | done r => trivial
  | fail e => trivial
  | look rest ih => exact fun s => ih s
  | tx l ok err ihok iherr => exact ⟨h l, ihok, iherr⟩

theorem Task.Ends.run {I : S → Prop} {t : Task S E R L} {w : World S M}
    (h : t.Ends sys I w.db) : I (t.run sys w).2.db := by
  induction t generalizing w with
  | done r => exact h
  | fail e => exact h
  | look rest ih => exact ih w.db h
  | tx l ok err ihok iherr =>
    simp only [Task.run]
    rcases atomic_cases (sys.prog l) w with ⟨r, w', hrun, hx⟩ | ⟨e, w', s, hrun, hsame, hx⟩
    · rw [hrun]
      exact ihok r (h.1 r w'.db hx)
    · rw [hrun]
      apply iherr e
      rw [hsame]
      exact h.2 e s hx

/-- Run alone from the rows `s`, the task issues every transaction on rows that `P`
allows it. -/
def Task.Finds (sys : System S K E M R L C V) (P : L → S → Prop) : Task S E R L → S → Prop
  | done _, _ | fail _, _ => True
  | look rest, s => (rest s).Finds sys P s
  | tx l ok err, s => P l s ∧
    (∀ r s', (sys.prog l).Exec Exact s (.ok r) s' → (ok r).Finds sys P s') ∧
      ∀ e s', (sys.prog l).Exec Exact s (.error e) s' → (err e).Finds sys P s

/-- What the transactions preserve on the rows they find, the task preserves. -/
theorem Task.Finds.ends {P : L → S → Prop} {I : S → Prop}
    (hprog : ∀ l s r s', P l s → I s → (sys.prog l).Exec Exact s (.ok r) s' → I s')
    {t : Task S E R L} {s : S} (h : t.Finds sys P s) (hs : I s) : t.Ends sys I s := by
  induction t generalizing s with
  | done r => exact hs
  | fail e => exact hs
  | look rest ih => exact ih s h hs
  | tx l ok err ihok iherr =>
    obtain ⟨hl, hok, herr⟩ := h
    constructor
    · intro r s' hx
      exact ihok r (hok r s' hx) (hprog l s r s' hl hs hx)
    · intro e s' hx
      exact iherr e (herr e s' hx) hs

/-- What the transactions keep on the rows they find, every transaction finds. -/
theorem Task.Finds.along {P : L → S → Prop} {I : S → Prop}
    (hprog : ∀ l s r s', P l s → I s → (sys.prog l).Exec Exact s (.ok r) s' → I s')
    {t : Task S E R L} {s : S} (h : t.Finds sys P s) (hs : I s) :
    t.Finds sys (fun l s => P l s ∧ I s) s := by
  induction t generalizing s with
  | done r => trivial
  | fail e => trivial
  | look rest ih => exact ih s h hs
  | tx l ok err ihok iherr =>
    obtain ⟨hl, hok, herr⟩ := h
    exact ⟨⟨hl, hs⟩, fun r s' hx => ihok r (hok r s' hx) (hprog l s r s' hl hs hx),
      fun e s' hx => iherr e (herr e s' hx) hs⟩

theorem Task.Finds.mono {P Q : L → S → Prop} {t : Task S E R L} {s : S} (h : t.Finds sys P s)
    (hpq : ∀ l s, P l s → Q l s) : t.Finds sys Q s := by
  induction t generalizing s with
  | done r => trivial
  | fail e => trivial
  | look rest ih => exact ih s h
  | tx l ok err ihok iherr =>
    obtain ⟨hl, hok, herr⟩ := h
    exact ⟨hpq l s hl, fun r s' hx => ihok r (hok r s' hx), fun e s' hx => iherr e (herr e s' hx)⟩

/-- A committed transaction is one that the task issued, and it ran to its end. -/
theorem Task.Finds.committed {P : L → S → Prop} {t : Task S E R L} {w : World S M}
    (h : t.Finds sys P w.db) {l : L} {s s' : S} (hc : (l, s, s') ∈ t.committed sys w) :
    P l s ∧ ∃ r, (sys.prog l).Exec Exact s (.ok r) s' := by
  induction t generalizing w with
  | done r => cases hc
  | fail e => cases hc
  | look rest ih => exact ih w.db h hc
  | tx l' ok err ihok iherr =>
    obtain ⟨hl, hok, herr⟩ := h
    simp only [Task.committed] at hc
    rcases atomic_cases (sys.prog l') w with ⟨r, w', hrun, hx⟩ | ⟨e, w', t, hrun, hsame, hx⟩
    · rw [hrun] at hc
      rcases List.mem_cons.mp hc with he | hc
      · cases he
        exact ⟨hl, r, hx⟩
      · exact ihok r (hok r w'.db hx) hc
    · rw [hrun] at hc
      refine iherr e ?_ hc
      rw [hsame]
      exact herr e t hx

/-- What every transaction preserves along the history of those committed, a task does. -/
theorem Task.history {I : List (L × S × S) → S → Prop}
    (hprog : ∀ past l s r s', I past s → (sys.prog l).Exec Exact s (.ok r) s' →
      I (past ++ [(l, s, s')]) s')
    {t : Task S E R L} {w : World S M} {past : List (L × S × S)} (h : I past w.db) :
    I (past ++ t.committed sys w) (t.run sys w).2.db := by
  induction t generalizing past w with
  | done r =>
    rw [Task.committed, List.append_nil]
    exact h
  | fail e =>
    rw [Task.committed, List.append_nil]
    exact h
  | look rest ih => exact ih w.db h
  | tx l ok err ihok iherr =>
    simp only [Task.run, Task.committed]
    rcases atomic_cases (sys.prog l) w with ⟨r, w', hrun, hx⟩ | ⟨e, w', s, hrun, hsame, hx⟩
    · have hrest := ihok r (hprog past l w.db r w'.db h hx)
      rw [List.append_assoc, List.singleton_append] at hrest
      rw [hrun]
      exact hrest
    · rw [hrun]
      apply iherr e
      rw [hsame]
      exact h

/-- Run alone from the rows `s`, the task is bound to commit a transaction as `Q` says. -/
def Task.Commits (sys : System S K E M R L C V) (Q : L → S → S → Prop) : Task S E R L → S → Prop
  | done _, _ | fail _, _ => False
  | look rest, s => (rest s).Commits sys Q s
  | tx l ok err, s =>
    (∀ r s', (sys.prog l).Exec Exact s (.ok r) s' → Q l s s' ∨ (ok r).Commits sys Q s') ∧
      ∀ e s', (sys.prog l).Exec Exact s (.error e) s' → (err e).Commits sys Q s

theorem Task.Commits.committed {Q : L → S → S → Prop} {t : Task S E R L} {w : World S M}
    (h : t.Commits sys Q w.db) : ∃ l s s', (l, s, s') ∈ t.committed sys w ∧ Q l s s' := by
  induction t generalizing w with
  | done r => exact h.elim
  | fail e => exact h.elim
  | look rest ih => exact ih w.db h
  | tx l ok err ihok iherr =>
    simp only [Task.committed]
    rcases atomic_cases (sys.prog l) w with ⟨r, w', hrun, hx⟩ | ⟨e, w', t, hrun, hsame, hx⟩
    · rw [hrun]
      rcases h.1 r w'.db hx with hq | hlater
      · exact ⟨l, w.db, w'.db, List.mem_cons_self .., hq⟩
      · obtain ⟨l', s, s', hc, hq⟩ := ihok r hlater
        exact ⟨l', s, s', List.mem_cons_of_mem _ hc, hq⟩
    · rw [hrun]
      apply iherr e
      rw [hsame]
      exact h.2 e t hx

end Serving

end Transactions
