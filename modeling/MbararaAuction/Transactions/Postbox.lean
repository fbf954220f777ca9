import MbararaAuction.Transactions.Outbox
import MbararaAuction.Transactions.Rules

namespace Transactions

section Owing
variable {S K E M R L C V : Type}

/-- The next thing the task does is the transaction that sends `m`. -/
def Task.Owes (sends : L → M → Prop) (m : M) : Task S E R L → Prop
  | done _ | fail _ | look _ => False
  | tx l _ _ => sends l m

/-- What a transaction leaves unpublished, its task goes on to send. -/
def PassesOn (sends : L → M → Prop) (l : L) (ok : R → Task S E R L) (err : E → Task S E R L) :
    Except E R → (M → Prop) → Prop
  | .ok r, left => ∀ m, left m → (ok r).Owes sends m
  | .error e, left => ∀ m, left m → sends l m → (err e).Owes sends m

/-- The task publishes whatever it writes a row for, at the latest in the transaction that
follows. -/
def Task.Clears (sys : System S K E M R L C V) (stored : M → S → Prop) (sends : L → M → Prop) :
    Task S E R L → Prop
  | done _ | fail _ => True
  | look rest => ∀ s, (rest s).Clears sys stored sends
  | tx l ok err => (sys.prog l).Clears stored (PassesOn sends l ok err) (sends l) ∧
    (∀ r, (ok r).Clears sys stored sends) ∧ ∀ e, (err e).Clears sys stored sends

def Session.Owes (sends : L → M → Prop) (m : M) : Session S K E M R L C → Prop
  | idle => False
  | ready _ task => task.Owes sends m
  | busy _ l _ _ _ _ => sends l m

/-- An open transaction has published what it wrote rows for, or will. -/
def Session.Clears (sys : System S K E M R L C V) (stored : M → S → Prop) (sends : L → M → Prop)
    (queue : List M) : Session S K E M R L C → Prop
  | idle => True
  | ready _ task => task.Clears sys stored sends
  | busy _ l rest work ok err =>
    (∃ owed : M → Prop,
      (∀ m, sends l m ∨ (∃ t, stored m (work t) ∧ ¬ stored m t) → owed m ∨ m ∈ queue) ∧
        rest.Clears stored (PassesOn sends l ok err) owed) ∧
      (∀ r, (ok r).Clears sys stored sends) ∧ ∀ e, (err e).Clears sys stored sends

/-- Every committed row that is not among the `old` ones has been published, or its process
is about to publish it. -/
structure Posted (sys : System S K E M R L C V) (stored : M → S → Prop) (sends : L → M → Prop)
    (old : M → Prop) (c : Config S K E M R L C) : Prop where
  sessions : ∀ j, (c.sessions j).Clears sys stored sends c.world.queue
  published : ∀ m, stored m c.db → old m ∨ m ∈ c.world.queue ∨ ∃ i, (c.sessions i).Owes sends m

/-- The event stops process `i` from outside. -/
def Event.Strikes (ev : Event C V) (i : Nat) : Prop := ev = .fault i ∨ ev = .crash i

variable {sys : System S K E M R L C V} {stored : M → S → Prop} {sends : L → M → Prop}
variable {old : M → Prop} {c c' : Config S K E M R L C} {ev : Event C V} {i : Nat}

theorem Session.Clears.mono {x : Session S K E M R L C} {queue queue' : List M}
    (h : x.Clears sys stored sends queue) (hsub : ∀ m ∈ queue, m ∈ queue') :
    x.Clears sys stored sends queue' := by
  cases x with
  | idle => trivial
  | ready call task => exact h
  | busy call l rest work ok err =>
    obtain ⟨⟨owed, howed, hrest⟩, hlater⟩ := h
    exact ⟨⟨owed, fun m hm => (howed m hm).imp_right (hsub m), hrest⟩, hlater⟩

/-- A process that moves on takes its debts with it, pays them, or adds to them. -/
theorem Posted.update {x : Session S K E M R L C} (h : Posted sys stored sends old c)
    (hc : c'.sessions = Function.update c.sessions i x)
    (hqueue : ∀ m ∈ c.world.queue, m ∈ c'.world.queue)
    (hx : x.Clears sys stored sends c'.world.queue)
    (hdb : ∀ m, stored m c'.db → stored m c.db ∨ m ∈ c'.world.queue ∨ x.Owes sends m)
    (howes : ∀ m, (c.sessions i).Owes sends m → m ∈ c'.world.queue ∨ x.Owes sends m) :
    Posted sys stored sends old c' := by
  have hself : c'.sessions i = x := by rw [hc, Function.update_self]
  constructor
  · intro j
    by_cases hj : j = i
    · subst hj
      rw [hself]
      exact hx
    · rw [hc, Function.update_of_ne hj]
      exact (h.sessions j).mono hqueue
  · intro m hm
    rcases hdb m hm with hold | hpublished | hnew
    · rcases h.published m hold with hfirst | hqueued | ⟨j, hj⟩
      · exact .inl hfirst
      · exact .inr (.inl (hqueue m hqueued))
      · by_cases hji : j = i
        · subst hji
          refine .inr ((howes m hj).imp_right fun hx => ⟨j, ?_⟩)
          rw [hself]
          exact hx
        · refine .inr (.inr ⟨j, ?_⟩)
          rw [hc, Function.update_of_ne hji]
          exact hj
    · exact .inr (.inl hpublished)
    · refine .inr (.inr ⟨i, ?_⟩)
      rw [hself]
      exact hnew

variable [DecidableEq K]

theorem posted_advance {call : C} {l : L} {rest : Tx S K E M R} {work : S → S}
    {ok : R → Task S E R L} {err : E → Task S E R L} (h : Posted sys stored sends old c)
    (hi : c.sessions i = .busy call l rest work ok err)
    (hs : c.advance i call l rest work ok err = some c') : Posted sys stored sends old c' := by
  have hown := h.sessions i
  rw [hi] at hown
  obtain ⟨⟨owed, howed, hrest⟩, hok, herr⟩ := hown
  have howes : ∀ m, (c.sessions i).Owes sends m → sends l m := by
    intro m hm
    rw [hi] at hm
    exact hm
  cases rest with
  | ret r =>
    cases hs
    refine h.update rfl (fun _ hm => hm) (hok r) ?_ ?_
    · intro m hm
      by_cases hold : stored m c.db
      · exact .inl hold
      · rcases howed m (.inr ⟨c.db, hm, hold⟩) with hleft | hqueued
        · exact .inr (.inr (hrest m hleft))
        · exact .inr (.inl hqueued)
    · intro m hm
      rcases howed m (.inl (howes m hm)) with hleft | hqueued
      · exact .inr (hrest m hleft)
      · exact .inl hqueued
  | raise e =>
    cases hs
    refine h.update rfl (fun _ hm => hm) (herr e) (fun _ => .inl) fun m hm => ?_
    rcases howed m (.inl (howes m hm)) with hleft | hqueued
    · exact .inr (hrest m hleft (howes m hm))
    · exact .inl hqueued
  | lock k p =>
    simp only [Config.advance] at hs
    split at hs
    · cases hs
      exact h.update rfl (fun _ hm => hm) ⟨⟨owed, howed, hrest⟩, hok, herr⟩ (fun _ => .inl)
        fun m hm => .inr (howes m hm)
    · cases hs
  | stmt f p =>
    cases hs
    refine h.update rfl (fun _ hm => hm) ⟨⟨_, ?_, hrest (work c.db)⟩, hok, herr⟩ (fun _ => .inl)
      fun m hm => .inr (howes m hm)
    rintro m (hm | ⟨t, hnew, hold⟩)
    · exact (howed m (.inl hm)).imp_left .inl
    · by_cases hmid : stored m (work t)
      · exact (howed m (.inr ⟨t, hmid, hold⟩)).imp_left .inl
      · exact .inl (.inr ⟨work t, hnew, hmid⟩)
  | peek p =>
    cases hs
    exact h.update rfl (fun _ hm => hm) ⟨⟨owed, howed, hrest _⟩, hok, herr⟩ (fun _ => .inl)
      fun m hm => .inr (howes m hm)
  | fresh p =>
    cases hs
    exact h.update rfl (fun _ hm => hm) ⟨⟨owed, howed, hrest _⟩, hok, herr⟩ (fun _ => .inl)
      fun m hm => .inr (howes m hm)
  | publish m p =>
    cases hs
    refine h.update rfl (fun _ hm => List.mem_append_left _ hm) ⟨⟨_, ?_, hrest⟩, hok, herr⟩
      (fun _ => .inl) fun m hm => .inr (howes m hm)
    intro m' hm'
    rcases howed m' hm' with hleft | hqueued
    · by_cases hsame : m' = m
      · exact .inr (List.mem_append_right _ (List.mem_singleton.mpr hsame))
      · exact .inl ⟨hleft, hsame⟩
    · exact .inr (List.mem_append_left _ hqueued)

theorem posted_step (h : Posted sys stored sends old c)
    (hbody : ∀ call, (sys.body call).Clears sys stored sends)
    (houtside : ∀ v m s, stored m (sys.outside v s) → stored m s)
    (hspares : ∀ j, ev.Strikes j → ∀ m, (c.sessions j).Owes sends m → m ∈ c.world.queue)
    (hs : sys.step c ev = some c') : Posted sys stored sends old c' := by
  cases ev with
  | outside v =>
    cases hs
    exact ⟨h.sessions, fun m hm => h.published m (houtside v m c.db hm)⟩
  | call i call =>
    simp only [System.step] at hs
    split at hs
    · rename_i hi
      cases hs
      refine h.update rfl (fun _ hm => hm) (hbody call) (fun _ => .inl) fun m hm => ?_
      rw [hi] at hm
      exact hm.elim
    · cases hs
  | act i =>
    simp only [System.step, System.act] at hs
    split at hs
    · cases hs
    · rename_i call task hi
      have hown := h.sessions i
      rw [hi] at hown
      split at hs
      · cases hs
      · cases hs
      · cases hs
        refine h.update rfl (fun _ hm => hm) (hown c.db) (fun _ => .inl) fun m hm => ?_
        rw [hi] at hm
        exact hm.elim
      · rename_i l ok err
        cases hs
        refine h.update rfl (fun _ hm => hm) ⟨⟨sends l, ?_, hown.1⟩, hown.2⟩ (fun _ => .inl) ?_
        · rintro m (hm | ⟨t, hnew, hold⟩)
          · exact .inl hm
          · exact absurd hnew hold
        · intro m hm
          rw [hi] at hm
          exact .inr hm
    · rename_i hi
      exact posted_advance h hi hs
  | fault i =>
    have hnone : ∀ m, (c.sessions i).Owes sends m → m ∈ c.world.queue := hspares i (.inl rfl)
    have hown := h.sessions i
    simp only [System.step, System.strike] at hs
    split at hs
    · cases hs
    · rename_i call task hi
      rw [hi] at hown
      split at hs
      · cases hs
      · cases hs
      · cases hs
        exact h.update rfl (fun _ hm => hm) trivial (fun _ => .inl) fun m hm => .inl (hnone m hm)
      · cases hs
        exact h.update rfl (fun _ hm => hm) (hown.2.2 _) (fun _ => .inl)
          fun m hm => .inl (hnone m hm)
    · rename_i hi
      rw [hi] at hown
      cases hs
      exact h.update rfl (fun _ hm => hm) (hown.2.2 _) (fun _ => .inl) fun m hm => .inl (hnone m hm)
  | crash i =>
    simp only [System.step] at hs
    split at hs
    · cases hs
    · cases hs
      exact h.update rfl (fun _ hm => hm) trivial (fun _ => .inl)
        fun m hm => .inl (hspares i (.inr rfl) m hm)

omit [DecidableEq K] in
theorem posted_initial (db : S) :
    Posted sys stored sends (stored · db) (Config.initial db : Config S K E M R L C) :=
  ⟨fun _ => trivial, fun _ hm => .inl hm⟩

end Owing

end Transactions
