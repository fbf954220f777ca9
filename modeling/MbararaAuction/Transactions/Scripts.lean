import MbararaAuction.Transactions.Waiting

namespace Transactions

/-- A program above a system: it reads rows, makes calls one after another, each of
which returns or raises before it goes on, and answers. -/
inductive Script (S E R P C : Type) where
  | answer (page : P)
  | fail (e : E)
  | look (rest : S → Script S E R P C)
  | call (c : C) (next : Except E R → Script S E R P C)

section Layer
variable {S K E M R P L C D V : Type}

/-- The task of a call, and what follows its result. -/
def Task.andThen : Task S E R L → (Except E R → Task S E (R ⊕ P) L) → Task S E (R ⊕ P) L
  | done r, next => next (.ok r)
  | fail e, next => next (.error e)
  | look rest, next => .look fun s => (rest s).andThen next
  | tx l ok err, next =>
    .tx l (Sum.elim (fun r => (ok r).andThen next) (fun page => .done (.inr page)))
      fun e => (err e).andThen next

/-- What a script does, with the bodies of its calls in place. -/
def Script.task (sys : System S K E M R L C V) : Script S E R P C → Task S E (R ⊕ P) L
  | answer page => .done (.inr page)
  | fail e => .fail e
  | look rest => .look fun s => (rest s).task sys
  | call c next => (sys.body c).andThen fun out => (next out).task sys

/-- A system whose processes run scripts over the calls of another. -/
def System.layer (sys : System S K E M R L C V) (script : D → Script S E R P C) :
    System S K E M (R ⊕ P) L D V where
  prog l := Sum.inl <$> sys.prog l
  body d := (script d).task sys
  outside := sys.outside
  fault := sys.fault

/-- Every call that the script makes satisfies `Q` at the moment when it is made,
whatever has happened by then. -/
def Script.Makes {X : Type} (rows : X → S) (later : X → X → Prop) (Q : C → X → Prop) :
    Script S E R P C → X → Prop
  | answer _, _ | fail _, _ => True
  | look rest, m => ∀ m', later m m' → (rest (rows m')).Makes rows later Q m'
  | call c next, m => Q c m ∧ ∀ out m', later m m' → (next out).Makes rows later Q m'

/-- Every task that fails does so with what `F` allows, where a transaction raises only
what `Q` allows for it at the moment. -/
def Task.Safe {X : Type} (rows : X → S) (later : X → X → Prop) (Q : L → E → X → Prop) (F : E → Prop) :
    Task S E R L → X → Prop
  | done _, _ => True
  | fail e, _ => F e
  | look rest, m => ∀ m', later m m' → (rest (rows m')).Safe rows later Q F m'
  | tx l ok err, m => ∀ m', later m m' →
    (∀ r, (ok r).Safe rows later Q F m') ∧ ∀ e, Q l e m' → (err e).Safe rows later Q F m'

/-- The same of a script, where every call fails only with what `G` allows for it. -/
def Script.Safe (G : C → E → Prop) (F : E → Prop) : Script S E R P C → Prop
  | answer _ => True
  | fail e => F e
  | look rest => ∀ s, (rest s).Safe G F
  | call c next => (∀ r, (next (.ok r)).Safe G F) ∧ ∀ e, G c e → (next (.error e)).Safe G F

section Rules
variable {X : Type} {rows : X → S} {later : X → X → Prop} {sys : System S K E M R L C V}

theorem Task.Issues.andThen {Q : L → X → Prop} {t : Task S E R L} {m : X}
    {next : Except E R → Task S E (R ⊕ P) L} (htrans : ∀ {a b c}, later a b → later b c → later a c)
    (hrefl : ∀ a, later a a) (h : t.Issues rows later Q m)
    (hnext : ∀ out m', later m m' → (next out).Issues rows later Q m') :
    (t.andThen next).Issues rows later Q m := by
  induction t generalizing m with
  | done r => exact hnext _ m (hrefl m)
  | fail e => exact hnext _ m (hrefl m)
  | look rest ih =>
    intro m' hm
    exact ih _ (h m' hm) fun out m'' hm' => hnext out m'' (htrans hm hm')
  | tx l ok err ihok iherr =>
    intro m' hm
    obtain ⟨hl, hok, herr⟩ := h m' hm
    have hlater : ∀ out m'', later m' m'' → (next out).Issues rows later Q m'' :=
      fun out m'' hm' => hnext out m'' (htrans hm hm')
    refine ⟨hl, fun r => ?_, fun e => iherr e (herr e) hlater⟩
    cases r with
    | inl r => exact ihok r (hok r) hlater
    | inr page => trivial

/-- What is issued is issued after the task began. -/
theorem Task.Issues.since {P Q : L → X → Prop} {t : Task S E R L} {m : X}
    (h : t.Issues rows later P m) (htrans : ∀ {a b c}, later a b → later b c → later a c)
    (hpq : ∀ l m', later m m' → P l m' → Q l m') : t.Issues rows later Q m := by
  induction t generalizing m with
  | done r => trivial
  | fail e => trivial
  | look rest ih =>
    intro m' hm
    exact ih _ (h m' hm) fun l m'' hm' => hpq l m'' (htrans hm hm')
  | tx l ok err ihok iherr =>
    intro m' hm
    obtain ⟨hl, hok, herr⟩ := h m' hm
    have hlater : ∀ l m'', later m' m'' → P l m'' → Q l m'' :=
      fun l m'' hm' => hpq l m'' (htrans hm hm')
    exact ⟨hpq l m' hm hl, fun r => ihok r (hok r) hlater, fun e => iherr e (herr e) hlater⟩

/-- What the calls of a script issue, the script issues. -/
theorem Script.Makes.issues {A : C → X → Prop} {Q : L → X → Prop} {x : Script S E R P C} {m : X}
    (htrans : ∀ {a b c}, later a b → later b c → later a c) (hrefl : ∀ a, later a a)
    (h : x.Makes rows later A m) (hbody : ∀ c m, A c m → (sys.body c).Issues rows later Q m) :
    (x.task sys).Issues rows later Q m := by
  induction x generalizing m with
  | answer page => trivial
  | fail e => trivial
  | look rest ih => exact fun m' hm => ih _ (h m' hm)
  | call c next ih =>
    obtain ⟨hc, hnext⟩ := h
    exact (hbody c m hc).andThen htrans hrefl fun out m' hm => ih out (hnext out m' hm)

theorem Task.Safe.kept {Q : L → E → X → Prop} {F : E → Prop} {t : Task S E R L} {m m' : X}
    (h : t.Safe rows later Q F m) (hm : later m m')
    (htrans : ∀ {a b c}, later a b → later b c → later a c) : t.Safe rows later Q F m' := by
  cases t with
  | done r => trivial
  | fail e => exact h
  | look rest => exact fun m'' hm' => h m'' (htrans hm hm')
  | tx l ok err => exact fun m'' hm' => h m'' (htrans hm hm')

theorem Task.Safe.mono {Q : L → E → X → Prop} {F G : E → Prop} {t : Task S E R L} {m : X}
    (h : t.Safe rows later Q F m) (hfg : ∀ e, F e → G e) : t.Safe rows later Q G m := by
  induction t generalizing m with
  | done r => trivial
  | fail e => exact hfg e h
  | look rest ih => exact fun m' hm => ih _ (h m' hm)
  | tx l ok err ihok iherr =>
    intro m' hm
    obtain ⟨hr, he⟩ := h m' hm
    exact ⟨fun r => ihok r (hr r), fun e hq => iherr e (he e hq)⟩

theorem Task.Safe.andThen {Q : L → E → X → Prop} {F G : E → Prop} {t : Task S E R L} {m : X}
    {next : Except E R → Task S E (R ⊕ P) L} (htrans : ∀ {a b c}, later a b → later b c → later a c)
    (hrefl : ∀ a, later a a) (h : t.Safe rows later Q G m)
    (hok : ∀ r m', later m m' → (next (.ok r)).Safe rows later Q F m')
    (herror : ∀ e m', G e → later m m' → (next (.error e)).Safe rows later Q F m') :
    (t.andThen next).Safe rows later Q F m := by
  induction t generalizing m with
  | done r => exact hok r m (hrefl m)
  | fail e => exact herror e m h (hrefl m)
  | look rest ih =>
    intro m' hm
    exact ih _ (h m' hm) (fun r m'' hm' => hok r m'' (htrans hm hm'))
      fun e m'' he hm' => herror e m'' he (htrans hm hm')
  | tx l ok err ihok iherr =>
    intro m' hm
    obtain ⟨hr, he⟩ := h m' hm
    have hok' : ∀ r m'', later m' m'' → (next (.ok r)).Safe rows later Q F m'' :=
      fun r m'' hm' => hok r m'' (htrans hm hm')
    have herror' : ∀ e m'', G e → later m' m'' → (next (.error e)).Safe rows later Q F m'' :=
      fun e m'' hg hm' => herror e m'' hg (htrans hm hm')
    refine ⟨fun r => ?_, fun e hq => iherr e (he e hq) hok' herror'⟩
    cases r with
    | inl r => exact ihok r (hr r) hok' herror'
    | inr page => trivial

/-- A script fails as the calls let it that it makes. -/
theorem Script.Safe.task {A : C → X → Prop} {Q : L → E → X → Prop} {G : C → E → Prop} {F : E → Prop}
    {x : Script S E R P C} {m : X} (htrans : ∀ {a b c}, later a b → later b c → later a c)
    (hrefl : ∀ a, later a a) (h : x.Safe G F) (hmakes : x.Makes rows later A m)
    (hbody : ∀ c m, A c m → (sys.body c).Safe rows later Q (G c) m) :
    (x.task sys).Safe rows later Q F m := by
  induction x generalizing m with
  | answer page => trivial
  | fail e => exact h
  | look rest ih => exact fun m' hm => ih _ (h _) (hmakes m' hm)
  | call c next ih =>
    obtain ⟨hok, herror⟩ := h
    obtain ⟨hc, hnext⟩ := hmakes
    exact (hbody c m hc).andThen htrans hrefl (fun r m' hm => ih _ (hok r) (hnext _ m' hm))
      fun e m' he hm => ih _ (herror e he) (hnext _ m' hm)

end Rules

section Runs
variable [DecidableEq K] {sys : System S K E M R L C V} {db : S}

/-- Where every transaction raises only what `Q` allows, no task fails otherwise than `F`
says. -/
theorem Run.safe {Q : L → E → sys.Moment db → Prop} {F : C → E → Prop}
    (hbody : ∀ c m, (sys.body c).Safe Moment.rows Moment.Leads Q (F c) m)
    (hfault : ∀ l m, Q l sys.fault m) (hfail : ∀ c, F c sys.fault)
    (hraise : ∀ (m : sys.Moment db) (ev : Event C V) c l e, m.now.raises ev = some (c, l, e) → Q l e m)
    (m : sys.Moment db) : ∀ i c t, (m.now.sessions i).task = some (c, t) →
      t.Safe Moment.rows Moment.Leads Q (F c) m := by
  obtain ⟨past, now, run⟩ := m
  induction run with
  | start =>
    intro i c t ht
    cases ht
  | @snoc before now now' ev run taken ih =>
    let m : sys.Moment db := ⟨before, now, run⟩
    -- What the task becomes was safe before; the moment only became later.
    have hkeep : ∀ {c : C} {t : Task S E R L}, t.Safe Moment.rows Moment.Leads Q (F c) m →
        t.Safe Moment.rows Moment.Leads Q (F c) (m.next taken) :=
      fun h => h.kept (m.leads_next taken) Moment.Leads.trans
    intro i c t ht
    have hold := ih i
    rcases step_progress taken i with hsame | ⟨_, hprogress⟩
    · exact hkeep (hold _ _ (hsame.symm.trans ht))
    rw [ht] at hprogress
    generalize hx : (now.sessions i).task = x at hprogress hold
    cases hprogress with
    | stay => exact hkeep (hold _ _ rfl)
    | call => exact hkeep (hbody _ m)
    | look => exact hkeep (hold _ _ rfl m (.refl m))
    | commit => exact hkeep ((hold _ _ rfl m (.refl m)).1 _)
    | fault => exact hfail _
    | abort why =>
      have herr := (hold _ _ rfl m (.refl m)).2
      rcases why with hraises | hev
      · exact hkeep (herr _ (hraise m _ _ _ _ hraises))
      · subst hev
        have hstruck := fault_task taken hx
        rw [ht] at hstruck
        rw [(Prod.mk.inj (Option.some.inj hstruck)).2]
        exact hkeep (herr _ (hfault _ m))

end Runs

/-- The exception that has ended the call of a process. -/
def Session.raised : Session S K E M R L C → Option E
  | ready _ (.fail e) => some e
  | _ => none

theorem raised_task {x : Session S K E M R L C} {e : E} (h : x.raised = some e) :
    ∃ c, x.task = some (c, .fail e) := by
  unfold Session.raised at h
  split at h
  · cases h
    exact ⟨_, rfl⟩
  · cases h

section Alone
variable {sys : System S K E M R L C V} {script : D → Script S E R P C}

/-- What an outcome leads to, with the world that it leaves. -/
def proceed {X Y W : Type} (next : X → W → Y × W) (out : X × W) : Y × W := next out.1 out.2

variable (sys) in
/-- Runs a script alone, from beginning to end. -/
def Script.run : Script S E R P C → World S M → Except E P × World S M
  | answer page, w => (.ok page, w)
  | fail e, w => (.error e, w)
  | look rest, w => (rest w.db).run w
  | call c next, w => proceed (fun out => (next out).run) ((sys.body c).run sys w)

theorem Tx.atomic_map {α β : Type} (f : α → β) (p : Tx S K E M α) (w : World S M) :
    (f <$> p).atomic w = ((p.atomic w).1.map f, (p.atomic w).2) := by
  have hrun : (f <$> p).run w = ((p.run w).1.map f, (p.run w).2) := by
    change (p.bind fun a => .ret (f a)).run w = _
    induction p generalizing w with
    | ret a => rfl
    | raise e => rfl
    | lock k rest ih => exact ih w
    | stmt write rest ih => exact ih w.db _
    | peek rest ih => exact ih w.db w
    | fresh rest ih => exact ih w.seq _
    | publish m rest ih => exact ih _
  unfold Tx.atomic
  rw [hrun]
  cases p.run w with
  | mk out w' => cases out <;> rfl

/-- A task of one transaction. -/
theorem Task.run_single (l : L) (w : World S M) :
    (Task.tx l .done .fail : Task S E R L).run sys w = (sys.prog l).atomic w := by
  simp only [Task.run]
  cases (sys.prog l).atomic w with
  | mk out w' => cases out <;> rfl

/-- A task of the system below, run alone inside the layer. -/
theorem Task.run_andThen (t : Task S E R L) (next : Except E R → Task S E (R ⊕ P) L) (w : World S M) :
    (t.andThen next).run (sys.layer script) w =
      proceed (fun out => (next out).run (sys.layer script)) (t.run sys w) := by
  induction t generalizing w with
  | done r => rfl
  | fail e => rfl
  | look rest ih => exact ih w.db w
  | tx l ok err ihok iherr =>
    have hprog : ((sys.layer script).prog l).atomic w =
        (((sys.prog l).atomic w).1.map Sum.inl, ((sys.prog l).atomic w).2) := Tx.atomic_map ..
    simp only [Task.andThen, Task.run, hprog]
    cases (sys.prog l).atomic w with
    | mk out w' =>
      cases out with
      | ok r => exact ihok r w'
      | error e => exact iherr e w'

/-- Alone, the layer does what its scripts say. -/
theorem Script.run_task (x : Script S E R P C) (w : World S M) :
    (x.task sys).run (sys.layer script) w = ((x.run sys w).1.map Sum.inr, (x.run sys w).2) := by
  induction x generalizing w with
  | answer page => rfl
  | fail e => rfl
  | look rest ih => exact ih w.db w
  | call c next ih =>
    rw [Script.task, Task.run_andThen]
    exact ih _ _

end Alone

section Inherited
variable {sys : System S K E M R L C V} {script : D → Script S E R P C}

theorem Disciplined.layer {pr : Protection K S} (h : Disciplined sys pr) :
    Disciplined (sys.layer script) pr where
  guarded := fun l => Tx.Guarded.bind ((h.guarded l).mono fun _ _ _ => trivial)
  outside := h.outside

theorem OrderedSystem.layer {o : LockOrder K S} {Q : E → Prop} (h : OrderedSystem sys o Q) :
    OrderedSystem (sys.layer script) o Q where
  orderly := fun l => Tx.Orderly.bind ((h.orderly l).mono fun _ _ _ => trivial)
  outside := h.outside

end Inherited
end Layer

end Transactions
