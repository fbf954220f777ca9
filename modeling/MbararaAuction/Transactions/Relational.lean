import MbararaAuction.Transactions.Program

namespace Transactions

section Programs
variable {S K E M α β γ δ : Type}

/-- Run side by side on rows that `R` relates, the two bodies do the same: they take
the same locks, send the same messages and raise the same exceptions, and they
return what `Q` relates. -/
inductive Tx.Alike (R : S → S → Prop) (Q : α → β → Prop) : Tx S K E M α → Tx S K E M β → Prop
  | ret {a b} (result : Q a b) : Alike R Q (.ret a) (.ret b)
  | raise (e) : Alike R Q (.raise e) (.raise e)
  | lock (k) {p q} (rest : Alike R Q p q) : Alike R Q (.lock k p) (.lock k q)
  | stmt {f g p q} (writes : ∀ s t, R s t → R (f s) (g t))
      (rest : ∀ s t, R s t → Alike R Q (p s) (q t)) : Alike R Q (.stmt f p) (.stmt g q)
  | peek {p q} (rest : ∀ s t, R s t → Alike R Q (p s) (q t)) : Alike R Q (.peek p) (.peek q)
  | fresh {p q} (rest : ∀ n, Alike R Q (p n) (q n)) : Alike R Q (.fresh p) (.fresh q)
  | publish (m) {p q} (rest : Alike R Q p q) : Alike R Q (.publish m p) (.publish m q)

section Rules
variable {R : S → S → Prop} {Q : α → β → Prop} {Q' : γ → δ → Prop}

theorem Tx.Alike.andThen {p : Tx S K E M α} {q : Tx S K E M β} {f : α → Tx S K E M γ}
    {g : β → Tx S K E M δ} (h : p.Alike R Q q) (hrest : ∀ a b, Q a b → (f a).Alike R Q' (g b)) :
    (p >>= f).Alike R Q' (q >>= g) := by
  induction h with
  | ret hab => exact hrest _ _ hab
  | raise e => exact .raise e
  | lock k _ ih => exact .lock k ih
  | stmt hw _ ih => exact .stmt hw ih
  | peek _ ih => exact .peek ih
  | fresh _ ih => exact .fresh ih
  | publish m _ ih => exact .publish m ih

/-- The same with one value on both sides. -/
theorem Tx.Alike.andSame {p q : Tx S K E M α} {f : α → Tx S K E M γ} {g : α → Tx S K E M δ}
    (h : p.Alike R Eq q) (hrest : ∀ a, (f a).Alike R Q' (g a)) :
    (p >>= f).Alike R Q' (q >>= g) := by
  apply h.andThen
  intro a b hab
  subst hab
  exact hrest a

/-- The same where the values are not used. -/
theorem Tx.Alike.andNext {p : Tx S K E M α} {q : Tx S K E M β} {p' : Tx S K E M γ}
    {q' : Tx S K E M δ} (h : p.Alike R Q q) (hrest : p'.Alike R Q' q') :
    (p >>= fun _ => p').Alike R Q' (q >>= fun _ => q') :=
  h.andThen fun _ _ _ => hrest

theorem alike_pure {a : α} {b : β} (h : Q a b) :
    (pure a : Tx S K E M α).Alike R Q (pure b : Tx S K E M β) := .ret h

theorem Tx.Alike.map {p : Tx S K E M α} {q : Tx S K E M β} {f : α → γ} {g : β → δ}
    (h : p.Alike R Q q) (hfg : ∀ a b, Q a b → Q' (f a) (g b)) :
    (f <$> p).Alike R Q' (g <$> q) :=
  h.andThen fun a b hab => .ret (hfg a b hab)

theorem alike_acquire (k : K) :
    (Tx.acquire k : Tx S K E M Unit).Alike R Eq (Tx.acquire k) := .lock k (.ret rfl)

theorem alike_query {f : S → α} {g : S → β} (h : ∀ s t, R s t → Q (f s) (g t)) :
    (Tx.query f : Tx S K E M α).Alike R Q (Tx.query g) :=
  .stmt (fun _ _ hr => hr) fun s t hr => .ret (h s t hr)

theorem alike_glance {f : S → α} {g : S → β} (h : ∀ s t, R s t → Q (f s) (g t)) :
    (Tx.glance f : Tx S K E M α).Alike R Q (Tx.glance g) :=
  .peek fun s t hr => .ret (h s t hr)

theorem alike_update {f g : S → S} (h : ∀ s t, R s t → R (f s) (g t)) :
    (Tx.update f : Tx S K E M Unit).Alike R Eq (Tx.update g) :=
  .stmt h fun _ _ _ => .ret rfl

theorem alike_draw : (Tx.draw : Tx S K E M Nat).Alike R Eq Tx.draw := .fresh fun _ => .ret rfl

theorem alike_send (m : M) : (Tx.send m : Tx S K E M Unit).Alike R Eq (Tx.send m) :=
  .publish m (.ret rfl)

theorem alike_ofExcept (x : Except E α) :
    (Tx.ofExcept x : Tx S K E M α).Alike R Eq (Tx.ofExcept x) := by
  cases x with
  | ok a => exact .ret rfl
  | error e => exact .raise e

theorem alike_refuse (c : Prop) [Decidable c] (e : E) :
    (Tx.refuse c e : Tx S K E M Unit).Alike R Eq (Tx.refuse c e) := by
  unfold Tx.refuse
  split
  · exact .raise e
  · exact .ret rfl

theorem alike_when (c : Prop) [Decidable c] {p q : Tx S K E M Unit} (h : p.Alike R Eq q) :
    (Tx.when c p).Alike R Eq (Tx.when c q) := by
  unfold Tx.when
  split
  · exact h
  · exact .ret rfl

/-- Two loops over the same list. -/
theorem alike_forEach (xs : List α) {p q : α → Tx S K E M Unit} (h : ∀ x, (p x).Alike R Eq (q x)) :
    (Tx.forEach xs p).Alike R Eq (Tx.forEach xs q) := by
  induction xs with
  | nil => exact .ret rfl
  | cons x rest ih => exact (h x).andThen fun _ _ _ => ih

end Rules

/-- Two outcomes: the same exception, or results that `Q` relates. -/
inductive Likewise (Q : α → β → Prop) : Except E α → Except E β → Prop
  | ok {a b} (result : Q a b) : Likewise Q (.ok a) (.ok b)
  | error (e) : Likewise Q (.error e) (.error e)

/-- Two worlds whose rows `R` relates, and which are the same otherwise. -/
structure World.Alike (R : S → S → Prop) (w v : World S M) : Prop where
  rows : R w.db v.db
  seq : w.seq = v.seq
  queue : w.queue = v.queue

section Run
variable {R : S → S → Prop} {Q : α → β → Prop} {p : Tx S K E M α} {q : Tx S K E M β}
variable {w v : World S M}

theorem Tx.Alike.run (h : p.Alike R Q q) (hw : w.Alike R v) :
    Likewise Q (p.run w).1 (q.run v).1 ∧ (p.run w).2.Alike R (q.run v).2 := by
  induction h generalizing w v with
  | ret hab => exact ⟨.ok hab, hw⟩
  | raise e => exact ⟨.error e, hw⟩
  | lock k _ ih => exact ih hw
  | stmt hwrites _ ih => exact ih w.db v.db hw.rows ⟨hwrites _ _ hw.rows, hw.seq, hw.queue⟩
  | peek _ ih => exact ih w.db v.db hw.rows hw
  | @fresh p q _ ih =>
    simp only [Tx.run, ← hw.seq]
    exact ih w.seq ⟨hw.rows, rfl, hw.queue⟩
  | publish m _ ih => exact ih ⟨hw.rows, hw.seq, congrArg (· ++ [m]) hw.queue⟩

theorem Tx.Alike.atomic (h : p.Alike R Q q) (hw : w.Alike R v) :
    Likewise Q (p.atomic w).1 (q.atomic v).1 ∧ (p.atomic w).2.Alike R (q.atomic v).2 := by
  obtain ⟨hout, hafter⟩ := h.run hw
  unfold Tx.atomic
  generalize p.run w = x at *
  generalize q.run v = y at *
  obtain ⟨out, w'⟩ := x
  obtain ⟨out', v'⟩ := y
  cases hout with
  | ok hab => exact ⟨.ok hab, hafter⟩
  | error e => exact ⟨.error e, hw.rows, hafter.seq, hafter.queue⟩

end Run

end Programs

section Tasks
variable {S K E M R L C V : Type}

/-- Run side by side on rows that `I` relates, the two tasks do the same, and they
return what `Q` relates. -/
inductive Task.Alike (sys : System S K E M R L C V) (I : S → S → Prop) (Q : R → R → Prop) :
    Task S E R L → Task S E R L → Prop
  | done {r r'} (result : Q r r') : Alike sys I Q (.done r) (.done r')
  | fail (e) : Alike sys I Q (.fail e) (.fail e)
  | look {p q} (rest : ∀ s t, I s t → Alike sys I Q (p s) (q t)) : Alike sys I Q (.look p) (.look q)
  | tx {l l' ok ok' err err'} (body : (sys.prog l).Alike I Q (sys.prog l'))
      (after : ∀ r r', Q r r' → Alike sys I Q (ok r) (ok' r'))
      (handler : ∀ e, Alike sys I Q (err e) (err' e)) : Alike sys I Q (.tx l ok err) (.tx l' ok' err')

theorem Task.Alike.run {sys : System S K E M R L C V} {I : S → S → Prop} {Q : R → R → Prop}
    {p q : Task S E R L} {w v : World S M} (h : p.Alike sys I Q q) (hw : w.Alike I v) :
    Likewise Q (p.run sys w).1 (q.run sys v).1 ∧ (p.run sys w).2.Alike I (q.run sys v).2 := by
  induction h generalizing w v with
  | done hr => exact ⟨.ok hr, hw⟩
  | fail e => exact ⟨.error e, hw⟩
  | look _ ih => exact ih w.db v.db hw.rows hw
  | @tx l l' ok ok' err err' hbody _ _ ihok iherr =>
    obtain ⟨hout, hafter⟩ := hbody.atomic hw
    simp only [Task.run]
    generalize (sys.prog l).atomic w = x at *
    generalize (sys.prog l').atomic v = y at *
    obtain ⟨out, w'⟩ := x
    obtain ⟨out', v'⟩ := y
    cases hout with
    | ok hr => exact ihok _ _ hr hafter
    | error e => exact iherr e hafter

end Tasks

end Transactions
