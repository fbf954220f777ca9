import Mathlib.Data.List.Chain

namespace Transactions

/-- A run of a partial step function. The history keeps, for every step taken,
the state it left and the event that left it. -/
inductive Run {C V : Type} (step : C → V → Option C) (first : C) : List (C × V) → C → Prop where
  | start : Run step first [] first
  | snoc {before : List (C × V)} {c c' : C} {ev : V} (run : Run step first before c)
      (taken : step c ev = some c') : Run step first (before ++ [(c, ev)]) c'

/-- Some run ends here. -/
def Reachable {C V : Type} (step : C → V → Option C) (first c : C) : Prop :=
  ∃ before, Run step first before c

/-- The states of a run, in order. -/
def trail {C V : Type} (before : List (C × V)) (c : C) : List C := before.map Prod.fst ++ [c]

section Rules
variable {C V : Type} {step : C → V → Option C} {first c c' : C} {before : List (C × V)} {ev : V}

theorem trail_start : trail ([] : List (C × V)) c = [c] := rfl

theorem trail_snoc : trail (before ++ [(c, ev)]) c' = trail before c ++ [c'] := by
  simp [trail]

theorem mem_trail_last : c ∈ trail before c := List.mem_append_right _ (List.mem_singleton_self c)

theorem mem_trail_snoc {x : C} :
    x ∈ trail (before ++ [(c, ev)]) c' ↔ x ∈ trail before c ∨ x = c' := by
  rw [trail_snoc, List.mem_append, List.mem_singleton]

theorem chain_snoc {R : C → C → Prop} :
    (trail (before ++ [(c, ev)]) c').IsChain R ↔ (trail before c).IsChain R ∧ R c c' := by
  rw [trail_snoc, List.isChain_append]
  simp [trail]

theorem pairwise_snoc {R : C → C → Prop} : (trail (before ++ [(c, ev)]) c').Pairwise R ↔
    (trail before c).Pairwise R ∧ ∀ y ∈ trail before c, R y c' := by
  rw [trail_snoc, List.pairwise_append]
  simp

/-- What is related pairwise is related to the last state. -/
theorem pairwise_last {R : C → C → Prop} (h : (trail before c).Pairwise R) (hrefl : R c c) {y : C}
    (hy : y ∈ trail before c) : R y c := by
  rcases List.mem_append.mp hy with hy | hy
  · exact (List.pairwise_append.mp h).2.2 y hy c (List.mem_singleton_self c)
  · rwa [List.mem_singleton.mp hy]

/-- A run passes through each of its states. -/
theorem Run.of_trail (hrun : Run step first before c) {y : C} (hy : y ∈ trail before c) :
    ∃ b after, Run step first b y ∧ Run step y after c ∧ before = b ++ after := by
  induction hrun with
  | start =>
    rw [trail_start, List.mem_singleton] at hy
    subst hy
    exact ⟨[], [], .start, .start, rfl⟩
  | @snoc before c c' ev run taken ih =>
    rcases mem_trail_snoc.mp hy with hy | rfl
    · obtain ⟨b, after, hb, hafter, rfl⟩ := ih hy
      exact ⟨b, after ++ [(c, ev)], hb, hafter.snoc taken, List.append_assoc ..⟩
    · exact ⟨_, [], run.snoc taken, .start, (List.append_nil _).symm⟩

theorem Run.first_mem_trail (hrun : Run step first before c) : first ∈ trail before c := by
  induction hrun with
  | start => exact mem_trail_last
  | snoc run taken ih => exact mem_trail_snoc.mpr (.inl ih)

/-- What every two neighbours are related by, the first state and the last are. -/
theorem Run.chained {R : C → C → Prop} (hrun : Run step first before c)
    (h : (trail before c).IsChain R) (hrefl : R first first)
    (htrans : ∀ {x y z}, R x y → R y z → R x z) : R first c := by
  induction hrun with
  | start => exact hrefl
  | snoc run taken ih =>
    obtain ⟨hchain, hlast⟩ := chain_snoc.mp h
    exact htrans (ih hchain) hlast

/-- Every step of a run was taken. -/
theorem Run.taken_mem (hrun : Run step first before c) {x : C × V} (hx : x ∈ before) :
    ∃ c', step x.1 x.2 = some c' := by
  induction hrun with
  | start => cases hx
  | snoc run taken ih =>
    rcases List.mem_append.mp hx with hx | hx
    · exact ih hx
    · rw [List.mem_singleton.mp hx]
      exact ⟨_, taken⟩

/-- What every allowed step preserves, given the history up to it, every run of
allowed steps preserves. -/
theorem Run.history {I : List (C × V) → C → Prop} {A : C → V → Prop}
    (hrun : Run step first before c) (hfirst : I [] first)
    (hstep : ∀ before c ev c', Run step first before c → I before c → A c ev →
      step c ev = some c' → I (before ++ [(c, ev)]) c')
    (hA : ∀ x ∈ before, A x.1 x.2) : I before c := by
  induction hrun with
  | start => exact hfirst
  | snoc run taken ih =>
    have hbefore := ih (fun x hx => hA x (List.mem_append_left _ hx))
    have hlast := hA _ (List.mem_append_right _ (List.mem_singleton_self _))
    exact hstep _ _ _ _ run hbefore hlast taken

theorem Run.invariant_where {I : C → Prop} {A : C → V → Prop} (hrun : Run step first before c)
    (hfirst : I first) (hstep : ∀ c ev c', I c → A c ev → step c ev = some c' → I c')
    (hA : ∀ x ∈ before, A x.1 x.2) : I c :=
  hrun.history (I := fun _ c => I c) hfirst (fun _ c ev c' _ hi ha hs => hstep c ev c' hi ha hs) hA

theorem Run.invariant {I : C → Prop} (hrun : Run step first before c) (hfirst : I first)
    (hstep : ∀ c ev c', I c → step c ev = some c' → I c') : I c :=
  hrun.invariant_where (A := fun _ _ => True) hfirst (fun c ev c' hi _ => hstep c ev c' hi)
    (fun _ _ => trivial)

/-- What every allowed step relates, any two states of a run of allowed steps are
related by, the earlier to the later. -/
theorem Run.pairwise {R : C → C → Prop} {A : C → V → Prop} (hrun : Run step first before c)
    (hrefl : ∀ before c, Run step first before c → R c c)
    (htrans : ∀ {x y z}, R x y → R y z → R x z)
    (hstep : ∀ before c ev c', Run step first before c → A c ev → step c ev = some c' → R c c')
    (hA : ∀ x ∈ before, A x.1 x.2) : (trail before c).Pairwise R := by
  refine hrun.history (I := fun before c => (trail before c).Pairwise R) ?_ ?_ hA
  · exact List.pairwise_singleton ..
  · intro before c ev c' run h ha hs
    refine pairwise_snoc.mpr ⟨h, fun y hy => ?_⟩
    exact htrans (pairwise_last h (hrefl _ _ run) hy) (hstep _ _ _ _ run ha hs)

theorem Reachable.refl : Reachable step first first :=
  ⟨[], .start⟩

theorem Run.trans {after : List (C × V)} (hrun : Run step first before c)
    (hlater : Run step c after c') : Run step first (before ++ after) c' := by
  induction hlater with
  | start => simpa using hrun
  | snoc run taken ih =>
    rw [← List.append_assoc]
    exact ih.snoc taken

theorem Reachable.trans (hr : Reachable step first c) (hr' : Reachable step c c') :
    Reachable step first c' := by
  obtain ⟨before, hrun⟩ := hr
  obtain ⟨after, hlater⟩ := hr'
  exact ⟨before ++ after, hrun.trans hlater⟩

theorem Reachable.single (ev : V) (taken : step c ev = some c') : Reachable step c c' :=
  ⟨[] ++ [(c, ev)], Run.start.snoc taken⟩

/-- Exactness of a condition on steps. If allowed steps keep an invariant that
makes the run good, and a step that is not allowed always spoils it, then a run
is good exactly when all its steps are allowed. -/
theorem Run.exact {G I : List (C × V) → C → Prop} {A : C → V → Prop}
    (hrun : Run step first before c) (hfirst : I [] first)
    (hstep : ∀ before c ev c', Run step first before c → I before c → A c ev →
      step c ev = some c' → I (before ++ [(c, ev)]) c')
    (hgood : ∀ before c, Run step first before c → I before c → G before c)
    (hinit : ∀ before c ev c', G (before ++ [(c, ev)]) c' → G before c)
    (hbreak : ∀ before c ev c', Run step first before c → I before c → ¬ A c ev →
      step c ev = some c' → ¬ G (before ++ [(c, ev)]) c') :
    G before c ↔ ∀ x ∈ before, A x.1 x.2 := by
  have hback : (∀ x ∈ before, A x.1 x.2) → I before c := hrun.history hfirst hstep
  refine ⟨?_, fun hall => hgood _ _ hrun (hback hall)⟩
  clear hback
  induction hrun with
  | start => exact fun _ x hx => absurd hx List.not_mem_nil
  | @snoc before c c' ev run taken ih =>
    intro hlast x hx
    have hold := ih (hinit _ _ _ _ hlast)
    rcases List.mem_append.mp hx with hx | hx
    · exact hold x hx
    · rw [List.mem_singleton.mp hx]
      by_contra hn
      exact hbreak _ _ _ _ run (run.history hfirst hstep hold) hn taken hlast

end Rules

/-- Takes one step for every event of the list. -/
def play {C V : Type} (step : C → V → Option C) : C → List V → Option C
  | c, [] => some c
  | c, ev :: rest => (step c ev).bind (fun c' => play step c' rest)

theorem play_run {C V : Type} {step : C → V → Option C} {first c : C} {evs : List V}
    (h : play step first evs = some c) : ∃ before, Run step first before c := by
  induction evs generalizing first with
  | nil =>
    cases h
    exact ⟨[], .start⟩
  | cons ev rest ih =>
    obtain ⟨c', hs, hrest⟩ := Option.bind_eq_some_iff.mp h
    obtain ⟨before, hrun⟩ := ih hrest
    exact ⟨_, Run.trans (Run.start.snoc hs) hrun⟩

/-- A list of events that can be played shows that what it ends in is reachable. -/
theorem play_reaches {C V : Type} {step : C → V → Option C} {first : C} {evs : List V}
    {Q : C → Bool} (h : (play step first evs).any Q = true) :
    ∃ before c, Run step first before c ∧ Q c = true := by
  obtain ⟨c, hc, hq⟩ := (Option.any_eq_true ..).mp h
  obtain ⟨before, hrun⟩ := play_run hc
  exact ⟨before, c, hrun, hq⟩

/-- Steps that are taken only where `A` allows them. -/
def stepWhere {C V : Type} (A : C → V → Bool) (step : C → V → Option C) (c : C) (ev : V) :
    Option C :=
  if A c ev then step c ev else none

theorem Run.of_where {C V : Type} {A : C → V → Bool} {step : C → V → Option C} {first c : C}
    {before : List (C × V)} (hrun : Run (stepWhere A step) first before c) :
    Run step first before c ∧ ∀ x ∈ before, A x.1 x.2 = true := by
  induction hrun with
  | start => exact ⟨.start, fun x hx => absurd hx List.not_mem_nil⟩
  | @snoc before c c' ev run taken ih =>
    obtain ⟨hrun, hall⟩ := ih
    unfold stepWhere at taken
    split at taken
    · rename_i hallowed
      refine ⟨hrun.snoc taken, fun x hx => ?_⟩
      rcases List.mem_append.mp hx with hx | hx
      · exact hall x hx
      · rw [List.mem_singleton.mp hx]
        exact hallowed
    · cases taken

/-- A list of events can also be played by allowed steps only. -/
theorem play_where {C V : Type} (step : C → V → Option C) (first : C) (A : C → V → Bool)
    (evs : List V) (Q : C → Bool) (h : (play (stepWhere A step) first evs).any Q = true) :
    ∃ before c, Run step first before c ∧ (∀ x ∈ before, A x.1 x.2 = true) ∧ Q c = true := by
  obtain ⟨before, c, hrun, hq⟩ := play_reaches h
  obtain ⟨hrun', hall⟩ := hrun.of_where
  exact ⟨before, c, hrun', hall, hq⟩

theorem play_append {C V : Type} {step : C → V → Option C} {first : C} (evs later : List V) :
    play step first (evs ++ later) = (play step first evs).bind (fun c => play step c later) := by
  induction evs generalizing first with
  | nil => rfl
  | cons ev rest ih =>
    simp only [List.cons_append, play, Option.bind_assoc]
    exact congrArg _ (funext fun c => ih)

/-- A list of events leads through where its beginning leads to. -/
theorem play_through {C V : Type} {step : C → V → Option C} {first : C} {evs later : List V}
    {P Q : C → Bool} (hP : (play step first evs).any P = true)
    (hQ : (play step first (evs ++ later)).any Q = true) : ∃ before c after c',
      Run step first before c ∧ P c = true ∧ Run step c after c' ∧ Q c' = true := by
  obtain ⟨c, hc, hp⟩ := (Option.any_eq_true ..).mp hP
  rw [play_append, hc, Option.bind_some] at hQ
  obtain ⟨after, c', hlater, hq⟩ := play_reaches hQ
  obtain ⟨before, hrun⟩ := play_run hc
  exact ⟨before, c, after, c', hrun, hp, hlater, hq⟩

/-- A moment of the runs that begin with `first`: where it is, and how it came there. -/
structure Moment {C V : Type} (step : C → V → Option C) (first : C) where
  past : List (C × V)
  now : C
  run : Run step first past now

/-- The run of `m` goes on to `m'`. -/
def Moment.Leads {C V : Type} {step : C → V → Option C} {first : C} (m m' : Moment step first) :
    Prop :=
  ∃ after, Run step m.now after m'.now ∧ m'.past = m.past ++ after

section Moments
variable {C V : Type} {step : C → V → Option C} {first : C} {m m' m'' : Moment step first}

theorem Moment.Leads.refl (m : Moment step first) : m.Leads m :=
  ⟨[], .start, (List.append_nil _).symm⟩

theorem Moment.Leads.trans (h : m.Leads m') (h' : m'.Leads m'') : m.Leads m'' := by
  obtain ⟨after, hrun, hpast⟩ := h
  obtain ⟨after', hrun', hpast'⟩ := h'
  refine ⟨after ++ after', hrun.trans hrun', ?_⟩
  rw [hpast', hpast, List.append_assoc]

/-- The moment after one more step. -/
def Moment.next (m : Moment step first) {ev : V} {c' : C} (taken : step m.now ev = some c') :
    Moment step first :=
  ⟨m.past ++ [(m.now, ev)], c', m.run.snoc taken⟩

theorem Moment.leads_next (m : Moment step first) {ev : V} {c' : C}
    (taken : step m.now ev = some c') : m.Leads (m.next taken) :=
  ⟨[(m.now, ev)], Run.start.snoc taken, rfl⟩

theorem Moment.of_trail (m : Moment step first) {y : C} (hy : y ∈ trail m.past m.now) :
    ∃ m' : Moment step first, m'.now = y ∧ m'.Leads m := by
  obtain ⟨b, after, hb, hafter, hpast⟩ := m.run.of_trail hy
  exact ⟨⟨b, y, hb⟩, rfl, after, hafter, hpast⟩

theorem Moment.Leads.mem_trail (h : m.Leads m') : m.now ∈ trail m'.past m'.now := by
  obtain ⟨after, hrun, hpast⟩ := h
  rw [hpast, trail, List.map_append, List.append_assoc]
  exact List.mem_append_right _ hrun.first_mem_trail

/-- What every step of every run relates, any two moments of a run are related by. -/
theorem Moment.Leads.along {R : C → C → Prop} (h : m.Leads m') (hrefl : ∀ c, R c c)
    (htrans : ∀ {a b c}, R a b → R b c → R a c)
    (hstep : ∀ (m : Moment step first) ev c', step m.now ev = some c' → R m.now c') :
    R m.now m'.now := by
  obtain ⟨after, hrun, _⟩ := h
  have hto : ∀ after c, Run step m.now after c → R m.now c := by
    intro after c hrun
    induction hrun with
    | start => exact hrefl _
    | snoc run taken ih => exact htrans ih (hstep ⟨_, _, m.run.trans run⟩ _ _ taken)
  exact hto _ _ hrun

/-- A run that ends in `Q` and did not begin there entered it by one of its steps. -/
theorem Moment.Leads.enters {Q : C → Prop} (h : m.Leads m') (hfirst : ¬ Q m.now)
    (hlast : Q m'.now) : ∃ (z : Moment step first) (ev : V) (c : C) (taken : step z.now ev = some c),
      m.Leads z ∧ (z.next taken).Leads m' ∧ ¬ Q z.now ∧ Q c := by
  obtain ⟨after, hrun, hpast⟩ := h
  have hto : ∀ after c, (hr : Run step m.now after c) → Q c →
      ∃ (z : Moment step first) (ev : V) (c' : C) (taken : step z.now ev = some c'), m.Leads z ∧
        (z.next taken).Leads ⟨m.past ++ after, c, m.run.trans hr⟩ ∧ ¬ Q z.now ∧ Q c' := by
    intro after c hr
    induction hr with
    | start => exact fun hq => absurd hq hfirst
    | @snoc before c c' ev run taken ih =>
      intro hq
      by_cases hq' : Q c
      · obtain ⟨z, ev₁, c₁, taken₁, hz, hlater, h₁, h₂⟩ := ih hq'
        refine ⟨z, ev₁, c₁, taken₁, hz, hlater.trans ⟨[(c, ev)], Run.start.snoc taken, ?_⟩, h₁, h₂⟩
        exact (List.append_assoc ..).symm
      · refine ⟨⟨m.past ++ before, c, m.run.trans run⟩, ev, c', taken, ⟨before, run, rfl⟩,
          ⟨[], .start, ?_⟩, hq', hq⟩
        simp [Moment.next]
  obtain ⟨z, ev, c, taken, hz, ⟨rest, hr, hp⟩, h₁, h₂⟩ := hto _ _ hrun hlast
  exact ⟨z, ev, c, taken, hz, ⟨rest, hr, by rw [hpast, ← hp]⟩, h₁, h₂⟩

end Moments

end Transactions
