import MbararaAuction.Transactions.Reduction

namespace Transactions

section Steps
variable {S K E M R L C V : Type} {sys : System S K E M R L C V} {pr : Protection K S}
variable {c c' : Config S K E M R L C} {ev : Event C V} {call : C} {l : L}

theorem commits_some (hc : c.commits ev = some (call, l)) :
    ∃ i r work ok err, ev = .act i ∧ c.sessions i = .busy call l (.ret r) work ok err := by
  unfold Config.commits at hc
  split at hc
  · rename_i i
    split at hc
    · rename_i hi
      cases hc
      exact ⟨i, _, _, _, _, rfl, hi⟩
    · cases hc
  · cases hc

theorem raises_some {e : E} (hc : c.raises ev = some (call, l, e)) :
    ∃ i work ok err, ev = .act i ∧ c.sessions i = .busy call l (.raise e) work ok err := by
  unfold Config.raises at hc
  split at hc
  · rename_i i
    split at hc
    · rename_i hi
      cases hc
      exact ⟨i, _, _, _, rfl, hi⟩
    · cases hc
  · cases hc

/-- A transaction that raises could have raised the same on the committed rows. -/
theorem raise_exec {e : E} (h : Tracked sys pr c) (hc : c.raises ev = some (call, l, e)) :
    ∃ s, (sys.prog l).Exec Anything c.world.db (.error e) s := by
  obtain ⟨i, work, ok, err, _, hi⟩ := raises_some hc
  obtain ⟨held, hr⟩ := h i _ _ _ _ _ _ hi
  exact ⟨_, hr.replay _ (.refl _) _ _ ⟨rfl, rfl⟩⟩

variable [DecidableEq K]

omit [DecidableEq K] in
/-- A transaction that is about to commit has run on the committed rows. -/
theorem commit_ends {i : Nat} {r : R} {work : S → S} {ok : R → Task S E R L}
    {err : E → Task S E R L} (h : Tracked sys pr c)
    (hi : c.sessions i = .busy call l (.ret r) work ok err) :
    (sys.prog l).Exec Anything c.world.db (.ok r) (work c.world.db) := by
  obtain ⟨held, hr⟩ := h i _ _ _ _ _ _ hi
  exact hr.replay _ (.refl _) _ _ ⟨rfl, rfl⟩

/-- A commit runs its whole transaction on the committed rows. -/
theorem commit_exec (h : Tracked sys pr c) (hs : sys.step c ev = some c')
    (hc : c.commits ev = some (call, l)) :
    ∃ r, (sys.prog l).Exec Anything c.world.db (.ok r) c'.world.db := by
  obtain ⟨i, r, work, ok, err, rfl, hi⟩ := commits_some hc
  simp only [System.step, System.act, hi, Config.advance, Option.some.injEq] at hs
  subst hs
  exact ⟨r, commit_ends h hi⟩

/-- Without a commit only the outside moves the rows. -/
theorem step_aside (h : Tracked sys pr c) (hs : sys.step c ev = some c')
    (hc : c.commits ev = none) :
    c'.world.db = c.world.db ∨ ∃ v, c'.world.db = sys.outside v c.world.db := by
  have hsplit : ∀ k k' : Coarse S E R L C, Coarse.Step sys (fun _ _ _ => False) k k' →
      k'.db = k.db ∨ ∃ v, k'.db = sys.outside v k.db := by
    intro k k' hk
    cases hk with
    | outside v => exact .inr ⟨v, rfl⟩
    | commit _ met _ => exact met.elim
    | call | look | abort | faultLook | faultTx | crash => exact .inl rfl
  rcases step_coarse h hs (by simp [hc]) with he | hk
  · exact .inl (congrArg Coarse.db he)
  · exact hsplit _ _ hk

end Steps

/-- The process that an event is about. -/
def Event.process {C V : Type} : Event C V → Option Nat
  | .call i _ | .act i | .fault i | .crash i => some i
  | .outside _ => none

/-- Nothing fails. -/
def Event.smooth {C V : Type} : Event C V → Bool
  | .fault _ | .crash _ => false
  | .outside _ | .call _ _ | .act _ => true

/-- What an event makes of the task of its process `i`. -/
inductive Progress {S K E M R L C V : Type} (sys : System S K E M R L C V)
    (c : Config S K E M R L C) (ev : Event C V) (i : Nat) :
    Option (C × Task S E R L) → Option (C × Task S E R L) → Prop where
  | stay {t} : Progress sys c ev i t t
  | crash {t} (crashed : ev = .crash i) : Progress sys c ev i t none
  | call {call} : Progress sys c ev i none (some (call, sys.body call))
  | look {call rest} :
      Progress sys c ev i (some (call, .look rest)) (some (call, rest c.world.db))
  | commit {call l ok err r} (commits : c.commits ev = some (call, l)) :
      Progress sys c ev i (some (call, .tx l ok err)) (some (call, ok r))
  | abort {call l ok err e} (why : c.raises ev = some (call, l, e) ∨ ev = .fault i) :
      Progress sys c ev i (some (call, .tx l ok err)) (some (call, err e))
  | fault {call rest} : Progress sys c ev i (some (call, .look rest)) (some (call, .fail sys.fault))

section Tasks
variable {S K E M R L C V : Type} {sys : System S K E M R L C V} {c c' : Config S K E M R L C}
variable {ev : Event C V} {i j : Nat}

/-- A step that changes one session moves the task of one process. -/
theorem progress_update {x : Session S K E M R L C} (hi : ev.process = some i)
    (hc : c'.sessions = Function.update c.sessions i x)
    (hown : Progress sys c ev i (c.sessions i).task x.task) (j : Nat) :
    (c'.sessions j).task = (c.sessions j).task ∨
      ev.process = some j ∧ Progress sys c ev j (c.sessions j).task (c'.sessions j).task := by
  rw [hc]
  by_cases hj : j = i
  · subst hj
    rw [Function.update_self]
    exact .inr ⟨hi, hown⟩
  · rw [Function.update_of_ne hj]
    exact .inl rfl

variable [DecidableEq K]

theorem step_progress (hs : sys.step c ev = some c') (j : Nat) :
    (c'.sessions j).task = (c.sessions j).task ∨
      ev.process = some j ∧ Progress sys c ev j (c.sessions j).task (c'.sessions j).task := by
  cases ev with
  | outside v =>
    cases hs
    exact .inl rfl
  | call i call =>
    simp only [System.step] at hs
    split at hs
    · rename_i hi
      cases hs
      exact progress_update rfl rfl (by rw [hi]; exact .call) j
    · cases hs
  | act i =>
    simp only [System.step, System.act] at hs
    split at hs
    · cases hs
    · rename_i call task hi
      split at hs
      · cases hs
      · cases hs
      · cases hs
        exact progress_update rfl rfl (by rw [hi]; exact .look) j
      · cases hs
        exact progress_update rfl rfl (by rw [hi]; exact .stay) j
    · rename_i call l rest work ok err hi
      cases rest with
      | ret r =>
        cases hs
        refine progress_update rfl rfl ?_ j
        rw [hi]
        exact .commit (by simp only [Config.commits, hi])
      | raise e =>
        cases hs
        refine progress_update rfl rfl ?_ j
        rw [hi]
        exact .abort (.inl (by simp only [Config.raises, hi]))
      | lock k p =>
        simp only [Config.advance] at hs
        split at hs
        · cases hs
          exact progress_update rfl rfl (by rw [hi]; exact .stay) j
        · cases hs
      | stmt | peek | fresh | publish =>
        cases hs
        exact progress_update rfl rfl (by rw [hi]; exact .stay) j
  | fault i =>
    simp only [System.step, System.strike] at hs
    split at hs
    · cases hs
    · rename_i call task hi
      split at hs
      · cases hs
      · cases hs
      · cases hs
        exact progress_update rfl rfl (by rw [hi]; exact .fault) j
      · cases hs
        exact progress_update rfl rfl (by rw [hi]; exact .abort (.inr rfl)) j
    · rename_i hi
      cases hs
      exact progress_update rfl rfl (by rw [hi]; exact .abort (.inr rfl)) j
  | crash i =>
    simp only [System.step] at hs
    split at hs
    · cases hs
    · cases hs
      exact progress_update rfl rfl (.crash rfl) j

/-- An event is about one process. -/
theorem step_other (hs : sys.step c ev = some c') (hi : ev.process ≠ some i) :
    c'.sessions i = c.sessions i := by
  have hne : ∀ {j x}, ev.process = some j → c'.sessions = Function.update c.sessions j x →
      c'.sessions i = c.sessions i := by
    intro j x hj hc
    rw [hc, Function.update_of_ne]
    rintro rfl
    exact hi hj
  cases ev with
  | outside v =>
    cases hs
    rfl
  | call j call =>
    simp only [System.step] at hs
    split at hs
    · cases hs
      exact hne rfl rfl
    · cases hs
  | crash j =>
    simp only [System.step] at hs
    split at hs
    · cases hs
    · cases hs
      exact hne rfl rfl
  | fault j =>
    simp only [System.step, System.strike] at hs
    split at hs
    · cases hs
    · split at hs <;> cases hs <;> exact hne rfl rfl
    · cases hs
      exact hne rfl rfl
  | act j =>
    simp only [System.step, System.act] at hs
    split at hs
    · cases hs
    · split at hs <;> cases hs <;> exact hne rfl rfl
    · rename_i rest _ _ _ _
      cases rest with
      | lock k p =>
        simp only [Config.advance] at hs
        split at hs
        · cases hs
          exact hne rfl rfl
        · cases hs
      | ret | raise | stmt | peek | fresh | publish =>
        cases hs
        exact hne rfl rfl

/-- A commit moves its process on. -/
theorem commit_task {call : C} {l : L} (hs : sys.step c ev = some c')
    (hc : c.commits ev = some (call, l)) : ∃ i ok err r, ev = .act i ∧
      (c.sessions i).task = some (call, .tx l ok err) ∧ (c'.sessions i).task = some (call, ok r) := by
  obtain ⟨i, r, work, ok, err, rfl, hi⟩ := commits_some hc
  simp only [System.step, System.act, hi, Config.advance, Option.some.injEq] at hs
  subst hs
  refine ⟨i, ok, err, r, rfl, ?_, ?_⟩
  · rw [hi]
    rfl
  · simp only [Config.place, Function.update_self]
    rfl

theorem crash_task (hs : sys.step c (.crash i) = some c') : (c'.sessions i).task = none := by
  simp only [System.step] at hs
  split at hs
  · cases hs
  · cases hs
    simp only [Config.place, Function.update_self]
    rfl

/-- A fault in a transaction raises. -/
theorem fault_task {call : C} {l : L} {ok : R → Task S E R L} {err : E → Task S E R L}
    (hs : sys.step c (.fault i) = some c') (ht : (c.sessions i).task = some (call, .tx l ok err)) :
    (c'.sessions i).task = some (call, err sys.fault) := by
  simp only [System.step, System.strike] at hs
  cases hi : c.sessions i with
  | idle => rw [hi] at hs; cases hs
  | ready =>
    rw [hi] at hs ht
    cases ht
    cases hs
    simp only [Config.place, Function.update_self]
    rfl
  | busy =>
    rw [hi] at hs ht
    cases ht
    cases hs
    simp only [Config.place, Function.update_self]
    rfl

/-- A process that no event is about has no task. -/
theorem Run.idle {first : Config S K E M R L C} {before : List (Config S K E M R L C × Event C V)}
    (hrun : Run sys.step first before c) (hfirst : (first.sessions i).task = none)
    (h : ∀ x ∈ before, x.2.process ≠ some i) : (c.sessions i).task = none := by
  refine hrun.invariant_where (I := fun c => (c.sessions i).task = none)
    (A := fun _ ev => ev.process ≠ some i) hfirst (fun c ev c' hidle hev hs => ?_) h
  rw [step_other hs hev, hidle]

/-- What the tasks of a call are, whatever happens. -/
theorem Run.tasks {P : C → Task S E R L → Prop} {first : Config S K E M R L C}
    {before : List (Config S K E M R L C × Event C V)} (hrun : Run sys.step first before c)
    (hfirst : ∀ i call t, (first.sessions i).task = some (call, t) → P call t)
    (hbody : ∀ call, P call (sys.body call))
    (hlook : ∀ call rest s, P call (.look rest) → P call (rest s))
    (htx : ∀ call l ok err, P call (.tx l ok err) → (∀ r, P call (ok r)) ∧ ∀ e, P call (err e))
    (hfault : ∀ call, P call (.fail sys.fault)) :
    ∀ i call t, (c.sessions i).task = some (call, t) → P call t := by
  refine hrun.invariant
    (I := fun c => ∀ i call t, (c.sessions i).task = some (call, t) → P call t) hfirst ?_
  intro c ev c' ih hs i call t ht
  have hold := ih i
  rcases step_progress hs i with hsame | ⟨_, hprogress⟩
  · exact hold _ _ (hsame.symm.trans ht)
  rw [ht] at hprogress
  generalize (c.sessions i).task = x at hprogress hold
  cases hprogress with
  | stay => exact hold _ _ rfl
  | call => exact hbody _
  | look => exact hlook _ _ _ (hold _ _ rfl)
  | commit => exact (htx _ _ _ _ (hold _ _ rfl)).1 _
  | abort => exact (htx _ _ _ _ (hold _ _ rfl)).2 _
  | fault => exact hfault _

end Tasks

section Rules
variable {S K E M R L C V : Type} [DecidableEq K]
variable {sys : System S K E M R L C V} {pr : Protection K S}
variable {db : S} {c c' : Config S K E M R L C}
variable {before after : List (Config S K E M R L C × Event C V)}

theorem Run.tracked (hd : Disciplined sys pr) (hrun : Run sys.step (Config.initial db) before c) :
    Tracked sys pr c :=
  hrun.invariant (tracked_initial db) (fun _ _ _ h hs => tracked_step hd h hs)

/-- An event that commits finds the rows it commits on as `cond` asks. -/
def Config.Meets (cond : C → L → S → Prop) (c : Config S K E M R L C) (ev : Event C V) : Prop :=
  ∀ call l, c.commits ev = some (call, l) → cond call l c.world.db

omit [DecidableEq K] in
theorem meets_iff {cond : C → L → S → Prop} {ev : Event C V} : c.Meets cond ev ↔
    ∀ x ∈ c.commits ev, cond x.1 x.2 c.world.db := by
  simp [Config.Meets]

instance {cond : C → L → S → Prop} [∀ call l s, Decidable (cond call l s)]
    (c : Config S K E M R L C) (ev : Event C V) : Decidable (c.Meets cond ev) :=
  decidable_of_iff _ meets_iff.symm

/-- Every commit of the history did. -/
def Met (cond : C → L → S → Prop) (before : List (Config S K E M R L C × Event C V)) : Prop :=
  ∀ x ∈ before, x.1.Meets cond x.2

omit [DecidableEq K] in
/-- How many commits of the history are of transactions that `p` picks. -/
def commitCount (p : L → Bool) (before : List (Config S K E M R L C × Event C V)) : Nat :=
  before.countP (fun x => (x.1.commits x.2).any (fun y => p y.2))

omit [DecidableEq K] in
theorem commitCount_snoc {p : L → Bool} {ev : Event C V} :
    commitCount p (before ++ [(c, ev)]) =
      commitCount p before + if (c.commits ev).any (fun y => p y.2) then 1 else 0 := by
  simp only [commitCount, List.countP_append, List.countP_singleton]

/-- Every transaction that the task still issues satisfies `P` at the moment when
it is issued, whatever has happened by then. -/
def Task.Issues {X : Type} (rows : X → S) (later : X → X → Prop) (P : L → X → Prop) :
    Task S E R L → X → Prop
  | done _, _ | fail _, _ => True
  | look rest, m => ∀ m', later m m' → (rest (rows m')).Issues rows later P m'
  | tx l ok err, m => ∀ m', later m m' →
    P l m' ∧ (∀ r, (ok r).Issues rows later P m') ∧ ∀ e, (err e).Issues rows later P m'

omit [DecidableEq K] in
theorem Task.Issues.later {X : Type} {rows : X → S} {later : X → X → Prop} {P : L → X → Prop}
    {t : Task S E R L} {m m' : X} (h : t.Issues rows later P m) (hm : later m m')
    (htrans : ∀ {a b c}, later a b → later b c → later a c) : t.Issues rows later P m' := by
  cases t with
  | done r => trivial
  | fail e => trivial
  | look rest => exact fun m'' hm' => h m'' (htrans hm hm')
  | tx l ok err => exact fun m'' hm' => h m'' (htrans hm hm')

omit [DecidableEq K] in
theorem Task.Issues.of_all {X : Type} {rows : X → S} {later : X → X → Prop} {P : L → X → Prop}
    (h : ∀ l m, P l m) {t : Task S E R L} {m : X} : t.Issues rows later P m := by
  induction t generalizing m with
  | done r => trivial
  | fail e => trivial
  | look rest ih => exact fun m' _ => ih _
  | tx l ok err ihok iherr => exact fun m' _ => ⟨h l m', fun r => ihok r, fun e => iherr e⟩

omit [DecidableEq K] in
theorem Task.Issues.mono {X : Type} {rows : X → S} {later : X → X → Prop} {P Q : L → X → Prop}
    {t : Task S E R L} {m : X} (h : t.Issues rows later P m) (hpq : ∀ l m, P l m → Q l m) :
    t.Issues rows later Q m := by
  induction t generalizing m with
  | done r => trivial
  | fail e => trivial
  | look rest ih => exact fun m' hm' => ih _ (h m' hm')
  | tx l ok err ihok iherr =>
    intro m' hm'
    obtain ⟨hl, hok, herr⟩ := h m' hm'
    exact ⟨hpq l m' hl, fun r => ihok r (hok r), fun e => iherr e (herr e)⟩

omit [DecidableEq K] in
/-- What a task issues at all, it issues at every moment. -/
theorem Task.Only.issues {X : Type} {rows : X → S} {later : X → X → Prop} {P : L → Prop}
    {t : Task S E R L} (h : t.Only P) (m : X) : t.Issues rows later (fun l _ => P l) m := by
  induction t generalizing m with
  | done r => trivial
  | fail e => trivial
  | look rest ih => exact fun m' _ => ih _ (h _) m'
  | tx l ok err ihok iherr =>
    exact fun m' _ => ⟨h.1, fun r => ihok r (h.2.1 r) m', fun e => iherr e (h.2.2 e) m'⟩

omit [DecidableEq K] in
/-- What a task issues whatever happens, it issues when nothing does. -/
theorem Task.Issues.finds {P : L → S → Prop} {t : Task S E R L} {s : S}
    (h : t.Issues id (fun _ _ => True) P s) : t.Finds sys P s := by
  induction t generalizing s with
  | done r => trivial
  | fail e => trivial
  | look rest ih => exact ih s (h s trivial)
  | tx l ok err ihok iherr =>
    obtain ⟨hl, hok, herr⟩ := h s trivial
    exact ⟨hl, fun r s' _ => ihok r ((hok r).later trivial fun _ _ => trivial),
      fun e s' _ => iherr e ((herr e).later trivial fun _ _ => trivial)⟩

/-- The moments of the interleaved runs that begin with the rows `db`. -/
abbrev System.Moment (sys : System S K E M R L C V) (db : S) : Type :=
  Transactions.Moment sys.step (Config.initial db)

/-- The committed rows at a moment. -/
def Moment.rows {first : Config S K E M R L C} (m : Moment sys.step first) : S := m.now.world.db

/-- A schedule that can be played leads to a moment. -/
theorem scheduled_moment (sys : System S K E M R L C V) (db : S) (schedule : List (Event C V))
    (Q : Config S K E M R L C → Bool)
    (h : (play sys.step (Config.initial db) schedule).any Q = true) :
    ∃ m : sys.Moment db, Q m.now = true := by
  obtain ⟨past, c, hrun, hc⟩ := play_reaches h
  exact ⟨⟨past, c, hrun⟩, hc⟩

/-- A schedule that goes on leads from one moment to another. -/
theorem scheduled_moments (sys : System S K E M R L C V) (db : S) (schedule later : List (Event C V))
    (P Q : Config S K E M R L C → Bool)
    (hP : (play sys.step (Config.initial db) schedule).any P = true)
    (hQ : (play sys.step (Config.initial db) (schedule ++ later)).any Q = true) :
    ∃ m m' : sys.Moment db, m.Leads m' ∧ P m.now = true ∧ Q m'.now = true := by
  obtain ⟨before, c, after, c', hrun, hp, hlater, hq⟩ := play_through hP hQ
  exact ⟨⟨before, c, hrun⟩, ⟨before ++ after, c', hrun.trans hlater⟩, ⟨after, hlater, rfl⟩, hp, hq⟩

/-- A schedule whose commits all find what `cond` asks for. -/
theorem scheduled_met (sys : System S K E M R L C V) (db : S) (cond : C → L → S → Prop)
    [∀ call l s, Decidable (cond call l s)] (schedule : List (Event C V))
    (Q : Config S K E M R L C → Bool)
    (h : (play (stepWhere (fun c ev => decide (c.Meets cond ev)) sys.step) (Config.initial db)
      schedule).any Q = true) : ∃ m : sys.Moment db, Met cond m.past ∧ Q m.now = true := by
  obtain ⟨past, c, hrun, hall, hq⟩ := play_where _ _ _ _ _ h
  exact ⟨⟨past, c, hrun⟩, fun x hx => of_decide_eq_true (hall x hx), hq⟩

/-- The run of `m` goes on to `m'` without a new call for process `i`. -/
def Moment.During (i : Nat) (m m' : sys.Moment db) : Prop :=
  ∃ after, Run sys.step m.now after m'.now ∧ m'.past = m.past ++ after ∧
    ∀ x ∈ after, ∀ call, x.2 ≠ .call i call

theorem Moment.During.refl {i : Nat} (m : sys.Moment db) : Moment.During i m m :=
  ⟨[], .start, (List.append_nil _).symm, nofun⟩

theorem Moment.During.trans {i : Nat} {m m' m'' : sys.Moment db} (h : Moment.During i m m')
    (h' : Moment.During i m' m'') : Moment.During i m m'' := by
  obtain ⟨after, hrun, hpast, hnone⟩ := h
  obtain ⟨after', hrun', hpast', hnone'⟩ := h'
  refine ⟨after ++ after', hrun.trans hrun', ?_, fun x hx => ?_⟩
  · rw [hpast', hpast, List.append_assoc]
  · exact (List.mem_append.mp hx).elim (hnone x) (hnone' x)

theorem Moment.During.leads {i : Nat} {m m' : sys.Moment db} (h : Moment.During i m m') :
    m.Leads m' := by
  obtain ⟨after, hrun, hpast, _⟩ := h
  exact ⟨after, hrun, hpast⟩

theorem Moment.during_next {i : Nat} (m : sys.Moment db) {ev : Event C V}
    {c' : Config S K E M R L C} (taken : sys.step m.now ev = some c')
    (h : ∀ call, ev ≠ .call i call) : Moment.During i m (m.next taken) := by
  refine ⟨[(m.now, ev)], Run.start.snoc taken, rfl, fun x hx => ?_⟩
  rw [List.mem_singleton.mp hx]
  exact h

/-- What the body of every call issues, process `i` issues at any moment, in the time that
`later` gives it: at least until it is given its next call. -/
theorem Run.issues {later : sys.Moment db → sys.Moment db → Prop} {i : Nat}
    {P : C → L → sys.Moment db → Prop} (hrefl : ∀ m, later m m)
    (htrans : ∀ {m m' m''}, later m m' → later m' m'' → later m m'')
    (hduring : ∀ {m m'}, Moment.During i m m' → later m m')
    (hbody : ∀ call m, (sys.body call).Issues Moment.rows later (P call) m)
    (m : sys.Moment db) : ∀ call t, (m.now.sessions i).task = some (call, t) →
      t.Issues Moment.rows later (P call) m := by
  obtain ⟨past, now, run⟩ := m
  induction run with
  | start =>
    intro call t ht
    cases ht
  | @snoc before c c' ev run taken ih =>
    let m : sys.Moment db := ⟨before, c, run⟩
    intro call t ht
    by_cases hcall : ∃ call', ev = .call i call'
    · obtain ⟨call', rfl⟩ := hcall
      simp only [System.step] at taken
      split at taken
      · cases taken
        rw [place_self] at ht
        cases ht
        exact hbody _ _
      · cases taken
    -- What the task becomes was issued before; the moment only became later.
    have hkeep : ∀ {call : C} {t : Task S E R L}, t.Issues Moment.rows later (P call) m →
        t.Issues Moment.rows later (P call) (m.next taken) :=
      fun h => h.later (hduring (m.during_next taken fun _ he => hcall ⟨_, he⟩)) htrans
    have hold := ih
    rcases step_progress taken i with hsame | ⟨_, hprogress⟩
    · exact hkeep (hold _ _ (hsame.symm.trans ht))
    rw [ht] at hprogress
    generalize (c.sessions i).task = x at hprogress hold
    cases hprogress with
    | stay => exact hkeep (hold _ _ rfl)
    | call => exact hkeep (hbody call m)
    | look => exact hkeep (hold _ _ rfl m (hrefl m))
    | commit => exact hkeep ((hold _ _ rfl m (hrefl m)).2.1 _)
    | abort => exact hkeep ((hold _ _ rfl m (hrefl m)).2.2 _)
    | fault => trivial

/-- A transaction commits under the condition under which its own process issued it. -/
theorem Run.issued_by {P : Nat → C → L → sys.Moment db → Prop}
    (hbody : ∀ i call m, (sys.body call).Issues Moment.rows (Moment.During i) (P i call) m)
    (m : sys.Moment db) {i : Nat} {call : C} {l : L}
    (hc : m.now.commits (.act i : Event C V) = some (call, l)) : P i call l m := by
  obtain ⟨j, r, work, ok, err, hj, hi⟩ := commits_some hc
  cases hj
  have htask : (m.now.sessions i).task = some (call, .tx l ok err) := by
    rw [hi]
    rfl
  exact (Run.issues .refl .trans id (hbody i) m call _ htask m (.refl m)).1

/-- A transaction commits under the condition under which it was issued. -/
theorem Run.issued {P : C → L → sys.Moment db → Prop}
    (hbody : ∀ call m, (sys.body call).Issues Moment.rows Moment.Leads (P call) m)
    (m : sys.Moment db) {ev : Event C V} {call : C} {l : L}
    (hc : m.now.commits ev = some (call, l)) : P call l m := by
  obtain ⟨i, r, work, ok, err, _, hi⟩ := commits_some hc
  have htask : (m.now.sessions i).task = some (call, .tx l ok err) := by
    rw [hi]
    rfl
  exact (Run.issues (i := i) Moment.Leads.refl Moment.Leads.trans Moment.During.leads hbody m call _
    htask m (.refl m)).1

end Rules

end Transactions
