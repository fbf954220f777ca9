import MbararaAuction.Transactions.Rules

namespace Transactions

section Bodies
variable {S K E M α β X : Type} {rows : X → S} {later : X → X → Prop} {m m' : X} {work : S → S}

/-- Runs a body from the moment `m` on, each of its statements at some later moment.
`post` receives its uncommitted writes, the moment of its end, and its result. -/
def Tx.Within (rows : X → S) (later : X → X → Prop) : Tx S K E M α → (S → S) → X →
    ((S → S) → X → α → Prop) → Prop
  | ret a, work, m, post => ∀ m', later m m' → post work m' a
  | raise _, _, _, _ => True
  | lock _ rest, work, m, post => rest.Within rows later work m post
  | stmt write rest, work, m, post =>
    ∀ m', later m m' → (rest (work (rows m'))).Within rows later (write ∘ work) m' post
  | peek rest, work, m, post =>
    ∀ m', later m m' → (rest (work (rows m'))).Within rows later work m' post
  | fresh rest, work, m, post => ∀ n, (rest n).Within rows later work m post
  | publish _ rest, work, m, post => rest.Within rows later work m post

section Rules
variable {p : Tx S K E M α} {post : (S → S) → X → α → Prop}

theorem Tx.Within.delay (htrans : ∀ {a b c}, later a b → later b c → later a c)
    (h : p.Within rows later work m post) (hm : later m m') :
    p.Within rows later work m' post := by
  induction p generalizing work with
  | ret a => exact fun m'' hm' => h m'' (htrans hm hm')
  | raise e => trivial
  | lock k rest ih => exact ih h
  | stmt write rest ih => exact fun m'' hm' => h m'' (htrans hm hm')
  | peek rest ih => exact fun m'' hm' => h m'' (htrans hm hm')
  | fresh rest ih => exact fun n => ih n (h n)
  | publish x rest ih => exact ih h

/-- What holds at every later moment holds at the end. -/
theorem Tx.Within.of_later (htrans : ∀ {a b c}, later a b → later b c → later a c)
    (h : ∀ work m' a, later m m' → post work m' a) : p.Within rows later work m post := by
  induction p generalizing m work with
  | ret a => exact fun m' hm => h work m' a hm
  | raise e => trivial
  | lock k rest ih => exact ih h
  | stmt write rest ih =>
    exact fun m' hm => ih _ fun work m'' a hm' => h work m'' a (htrans hm hm')
  | peek rest ih =>
    exact fun m' hm => ih _ fun work m'' a hm' => h work m'' a (htrans hm hm')
  | fresh rest ih => exact fun n => ih n h
  | publish x rest ih => exact ih h

theorem Tx.Within.bind (hrefl : ∀ a, later a a) {f : α → Tx S K E M β} {post : (S → S) → X → β → Prop}
    (h : p.Within rows later work m fun work' m' a => (f a).Within rows later work' m' post) :
    (p >>= f).Within rows later work m post := by
  change (p.bind f).Within rows later work m post
  induction p generalizing m work with
  | ret a => exact h m (hrefl m)
  | raise e => trivial
  | lock k rest ih => exact ih h
  | stmt write rest ih => exact fun m' hm => ih _ (h m' hm)
  | peek rest ih => exact fun m' hm => ih _ (h m' hm)
  | fresh rest ih => exact fun n => ih n (h n)
  | publish x rest ih => exact ih h

theorem Tx.Within.mono {post' : (S → S) → X → α → Prop} (h : p.Within rows later work m post)
    (hpost : ∀ work m a, post work m a → post' work m a) : p.Within rows later work m post' := by
  induction p generalizing m work with
  | ret a => exact fun m' hm => hpost work m' a (h m' hm)
  | raise e => trivial
  | lock k rest ih => exact ih h
  | stmt write rest ih => exact fun m' hm => ih _ (h m' hm)
  | peek rest ih => exact fun m' hm => ih _ (h m' hm)
  | fresh rest ih => exact fun n => ih n (h n)
  | publish x rest ih => exact ih h

theorem within_acquire {k : K} {post : (S → S) → X → Unit → Prop}
    (h : ∀ m', later m m' → post work m' ()) :
    (Tx.acquire k : Tx S K E M Unit).Within rows later work m post := h

theorem within_query {f : S → α}
    (h : ∀ m', later m m' → ∀ m'', later m' m'' → post (id ∘ work) m'' (f (work (rows m')))) :
    (Tx.query f : Tx S K E M α).Within rows later work m post := h

theorem within_require {x : Option α} {e : E} (h : ∀ a, x = some a → ∀ m', later m m' → post work m' a) :
    (Tx.require x e : Tx S K E M α).Within rows later work m post := by
  cases x with
  | some a => exact h a rfl
  | none => trivial

theorem within_refuse {c : Prop} [Decidable c] {e : E} {post : (S → S) → X → Unit → Prop}
    (h : ¬ c → ∀ m', later m m' → post work m' ()) :
    (Tx.refuse c e : Tx S K E M Unit).Within rows later work m post := by
  by_cases hc : c
  · rw [Tx.refuse, if_pos hc]
    trivial
  · rw [Tx.refuse, if_neg hc]
    exact h hc

theorem within_glance {f : S → α}
    (h : ∀ m', later m m' → ∀ m'', later m' m'' → post work m'' (f (work (rows m')))) :
    (Tx.glance f : Tx S K E M α).Within rows later work m post := h

theorem within_when {c : Prop} [Decidable c] {p : Tx S K E M Unit}
    {post : (S → S) → X → Unit → Prop} (hp : c → p.Within rows later work m post)
    (h : ¬ c → ∀ m', later m m' → post work m' ()) : (Tx.when c p).Within rows later work m post := by
  by_cases hc : c
  · rw [Tx.when, if_pos hc]
    exact hp hc
  · rw [Tx.when, if_neg hc]
    exact h hc

theorem Tx.Within.map (hrefl : ∀ a, later a a) {g : α → β} {post : (S → S) → X → β → Prop}
    (h : p.Within rows later work m fun work' m' a => ∀ m'', later m' m'' → post work' m'' (g a)) :
    (g <$> p).Within rows later work m post := Tx.Within.bind hrefl h

end Rules

/-- One statement of a body, on the committed rows `db`. -/
inductive Tx.Next (db : S) : Tx S K E M α → (S → S) → Tx S K E M α → (S → S) → Prop where
  | lock {k p work} : Next db (.lock k p) work p work
  | stmt {f p work} : Next db (.stmt f p) work (p (work db)) (f ∘ work)
  | peek {p work} : Next db (.peek p) work (p (work db)) work
  | fresh {p work} (n : Nat) : Next db (.fresh p) work (p n) work
  | publish {x p work} : Next db (.publish x p) work p work

end Bodies

/-- How a process came to be inside a transaction where it is now. -/
inductive Inside {S K E M R L C V : Type} (sys : System S K E M R L C V) (c : Config S K E M R L C)
    (j : Nat) (call : C) (l : L) : Tx S K E M R → (S → S) → Prop where
  | stay {rest work ok err} (same : c.sessions j = .busy call l rest work ok err) :
      Inside sys c j call l rest work
  | begin : Inside sys c j call l (sys.prog l) id
  | next {rest work rest' work' ok err} (busy : c.sessions j = .busy call l rest work ok err)
      (next : rest.Next c.world.db work rest' work') : Inside sys c j call l rest' work'

section Sessions
variable {S K E M R L C V : Type} {sys : System S K E M R L C V}
variable {c c' : Config S K E M R L C} {ev : Event C V} {i j : Nat} {call : C} {l : L}
variable {rest : Tx S K E M R} {work : S → S} {ok : R → Task S E R L} {err : E → Task S E R L}

theorem inside_update {x : Session S K E M R L C} (hc : c'.sessions = Function.update c.sessions i x)
    (hown : ∀ call l rest work ok err, x = .busy call l rest work ok err →
      Inside sys c i call l rest work)
    (hj : c'.sessions j = .busy call l rest work ok err) : Inside sys c j call l rest work := by
  rw [hc] at hj
  by_cases hji : j = i
  · subst hji
    rw [Function.update_self] at hj
    exact hown _ _ _ _ _ _ hj
  · rw [Function.update_of_ne hji] at hj
    exact .stay hj

variable [DecidableEq K]

theorem advance_inside (hi : c.sessions i = .busy call l rest work ok err)
    (hs : c.advance i call l rest work ok err = some c') {call' : C} {l' : L}
    {rest' : Tx S K E M R} {work' : S → S} {ok' : R → Task S E R L} {err' : E → Task S E R L}
    (hj : c'.sessions j = .busy call' l' rest' work' ok' err') :
    Inside sys c j call' l' rest' work' := by
  cases rest with
  | ret r =>
    cases hs
    exact inside_update rfl (fun _ _ _ _ _ _ hx => by cases hx) hj
  | raise e =>
    cases hs
    exact inside_update rfl (fun _ _ _ _ _ _ hx => by cases hx) hj
  | lock k p =>
    simp only [Config.advance] at hs
    split at hs
    · cases hs
      refine inside_update rfl (fun _ _ _ _ _ _ hx => ?_) hj
      cases hx
      exact .next hi .lock
    · cases hs
  | stmt f p =>
    cases hs
    refine inside_update rfl (fun _ _ _ _ _ _ hx => ?_) hj
    cases hx
    exact .next hi .stmt
  | peek p =>
    cases hs
    refine inside_update rfl (fun _ _ _ _ _ _ hx => ?_) hj
    cases hx
    exact .next hi .peek
  | fresh p =>
    cases hs
    refine inside_update rfl (fun _ _ _ _ _ _ hx => ?_) hj
    cases hx
    exact .next hi (.fresh _)
  | publish x p =>
    cases hs
    refine inside_update rfl (fun _ _ _ _ _ _ hx => ?_) hj
    cases hx
    exact .next hi .publish

theorem step_inside (hs : sys.step c ev = some c')
    (hj : c'.sessions j = .busy call l rest work ok err) : Inside sys c j call l rest work := by
  cases ev with
  | outside v =>
    cases hs
    exact .stay hj
  | call i call =>
    simp only [System.step] at hs
    split at hs
    · cases hs
      exact inside_update rfl (fun _ _ _ _ _ _ hx => by cases hx) hj
    · cases hs
  | act i =>
    simp only [System.step, System.act] at hs
    split at hs
    · cases hs
    · split at hs
      · cases hs
      · cases hs
      · cases hs
        exact inside_update rfl (fun _ _ _ _ _ _ hx => by cases hx) hj
      · cases hs
        refine inside_update rfl (fun _ _ _ _ _ _ hx => ?_) hj
        cases hx
        exact .begin
    · rename_i hi
      exact advance_inside hi hs hj
  | fault i =>
    simp only [System.step, System.strike] at hs
    split at hs
    · cases hs
    · split at hs
      · cases hs
      · cases hs
      · cases hs
        exact inside_update rfl (fun _ _ _ _ _ _ hx => by cases hx) hj
      · cases hs
        exact inside_update rfl (fun _ _ _ _ _ _ hx => by cases hx) hj
    · cases hs
      exact inside_update rfl (fun _ _ _ _ _ _ hx => by cases hx) hj
  | crash i =>
    simp only [System.step] at hs
    split at hs
    · cases hs
    · cases hs
      exact inside_update rfl (fun _ _ _ _ _ _ hx => by cases hx) hj

variable {db : S}

/-- What every body ensures of the moment of its end, every commit finds. -/
theorem Run.within {P : L → sys.Moment db → Prop}
    (hprog : ∀ l m, (sys.prog l).Within Moment.rows Moment.Leads id m fun _ m' _ => P l m')
    (m : sys.Moment db) {ev : Event C V} (hc : m.now.commits ev = some (call, l)) : P l m := by
  have hbusy : ∀ m : sys.Moment db, ∀ i call l rest work ok err,
      m.now.sessions i = .busy call l rest work ok err →
      rest.Within Moment.rows Moment.Leads work m fun _ m' _ => P l m' := by
    rintro ⟨past, now, run⟩
    induction run with
    | start =>
      intro i call l rest work ok err hi
      cases hi
    | @snoc before c c' ev run taken ih =>
      let m : sys.Moment db := ⟨before, c, run⟩
      intro i call l rest work ok err hi
      have hkeep : ∀ {rest : Tx S K E M R} {work : S → S},
          rest.Within Moment.rows Moment.Leads work m (fun _ m' _ => P l m') →
          rest.Within Moment.rows Moment.Leads work (m.next taken) fun _ m' _ => P l m' :=
        fun h => h.delay Moment.Leads.trans (m.leads_next taken)
      apply hkeep
      cases step_inside taken hi with
      | stay same => exact ih _ _ _ _ _ _ _ same
      | begin => exact hprog l m
      | next busy next =>
        have hold := ih _ _ _ _ _ _ _ busy
        cases next with
        | lock => exact hold
        | stmt => exact hold m (.refl m)
        | peek => exact hold m (.refl m)
        | fresh n => exact hold n
        | publish => exact hold
  obtain ⟨i, r, work, ok, err, _, hi⟩ := commits_some hc
  exact hbusy m i call l _ work ok err hi m (.refl m)

end Sessions

end Transactions
