import MbararaAuction.Transactions.Guarded
import MbararaAuction.Transactions.Interleaving
import MbararaAuction.Transactions.Runs

namespace Transactions

/-- The system with whole transactions as steps: committed rows, and what is left
of every process's task. -/
structure Coarse (S E R L C : Type) where
  db : S
  tasks : Nat → Option (C × Task S E R L)

section Coarse
variable {S K E M R L C V : Type}

def Session.task : Session S K E M R L C → Option (C × Task S E R L)
  | idle => none
  | ready call task => some (call, task)
  | busy call l _ _ ok err => some (call, .tx l ok err)

/-- Forgets locks, statements and uncommitted writes. -/
def Config.coarse (c : Config S K E M R L C) : Coarse S E R L C where
  db := c.world.db
  tasks := fun i => (c.sessions i).task

/-- A transaction commits in one step, provided `cond` holds of the rows it is
committed on; every other step leaves the rows to the outside. -/
inductive Coarse.Step (sys : System S K E M R L C V) (cond : C → L → S → Prop) :
    Coarse S E R L C → Coarse S E R L C → Prop where
  | outside {s ts} (v : V) : Step sys cond ⟨s, ts⟩ ⟨sys.outside v s, ts⟩
  | call {s ts} {i : Nat} (call : C) (free : ts i = none) :
      Step sys cond ⟨s, ts⟩ ⟨s, Function.update ts i (some (call, sys.body call))⟩
  | look {s ts} {i : Nat} {call : C} {rest} (at_look : ts i = some (call, .look rest)) :
      Step sys cond ⟨s, ts⟩ ⟨s, Function.update ts i (some (call, rest s))⟩
  | commit {s ts s'} {i : Nat} {call : C} {l : L} {ok err} {r : R}
      (at_tx : ts i = some (call, .tx l ok err)) (met : cond call l s)
      (run : (sys.prog l).Exec Anything s (.ok r) s') :
      Step sys cond ⟨s, ts⟩ ⟨s', Function.update ts i (some (call, ok r))⟩
  | abort {s ts v} {i : Nat} {call : C} {l : L} {ok err} {e : E}
      (at_tx : ts i = some (call, .tx l ok err))
      (run : (sys.prog l).Exec Anything s (.error e) v) :
      Step sys cond ⟨s, ts⟩ ⟨s, Function.update ts i (some (call, err e))⟩
  | faultLook {s ts} {i : Nat} {call : C} {rest} (at_look : ts i = some (call, .look rest)) :
      Step sys cond ⟨s, ts⟩ ⟨s, Function.update ts i (some (call, .fail sys.fault))⟩
  | faultTx {s ts} {i : Nat} {call : C} {l : L} {ok err}
      (at_tx : ts i = some (call, .tx l ok err)) :
      Step sys cond ⟨s, ts⟩ ⟨s, Function.update ts i (some (call, err sys.fault))⟩
  | crash {s ts} {i : Nat} : Step sys cond ⟨s, ts⟩ ⟨s, Function.update ts i none⟩

/-- What the reduction needs of a system: its transactions keep the locking
discipline, and the outside touches nothing that a lock protects. -/
structure Disciplined (sys : System S K E M R L C V) (pr : Protection K S) : Prop where
  guarded : ∀ l, (sys.prog l).Guarded pr [] (fun _ _ => True)
  outside : ∀ v s k, pr.Agree k s (sys.outside v s)

/-- Process `i` can be replayed: on any rows that agree with the committed ones on
what it holds locked, finishing `rest` finishes the whole transaction. -/
structure Replays (sys : System S K E M R L C V) (pr : Protection K S) (c : Config S K E M R L C)
    (i : Nat) (l : L) (rest : Tx S K E M R) (work : S → S) (held : List K) : Prop where
  owned : ∀ k ∈ held, c.locks k = some i
  guarded : rest.Guarded pr held (fun _ _ => True)
  respects : pr.Respects held work
  replay : ∀ s, pr.AgreeOn held c.world.db s → ∀ out t,
    rest.Exec Anything (work s) out t → (sys.prog l).Exec Anything s out t

def Tracked (sys : System S K E M R L C V) (pr : Protection K S) (c : Config S K E M R L C) : Prop :=
  ∀ i call l rest work ok err, c.sessions i = .busy call l rest work ok err →
    ∃ held, Replays sys pr c i l rest work held

end Coarse

section Proof
variable {S K E M R L C V : Type}
variable {sys : System S K E M R L C V} {pr : Protection K S} {c c' : Config S K E M R L C}
variable {i : Nat} {l : L} {rest : Tx S K E M R} {work : S → S} {held : List K}
variable {call : C} {ok : R → Task S E R L} {err : E → Task S E R L}

/-- Others may take locks and commit, as long as they leave alone what `i` locked. -/
theorem Replays.frame (h : Replays sys pr c i l rest work held)
    (hlocks : ∀ k, c.locks k = some i → c'.locks k = some i)
    (hdb : ∀ k, c.locks k = some i → pr.Agree k c.world.db c'.world.db) :
    Replays sys pr c' i l rest work held where
  owned := fun k hk => hlocks k (h.owned k hk)
  guarded := h.guarded
  respects := h.respects
  replay := fun s hs =>
    h.replay s (Protection.AgreeOn.trans (fun k hk => hdb k (h.owned k hk)) hs)

/-- A step of process `i` keeps every other process replayable. -/
theorem Tracked.of_own (h : Tracked sys pr c)
    (hother : ∀ j, j ≠ i → c'.sessions j = c.sessions j)
    (hlocks : ∀ j, j ≠ i → ∀ k, c.locks k = some j → c'.locks k = some j)
    (hdb : ∀ j, j ≠ i → ∀ k, c.locks k = some j → pr.Agree k c.world.db c'.world.db)
    (hown : ∀ call l rest work ok err, c'.sessions i = .busy call l rest work ok err →
      ∃ held, Replays sys pr c' i l rest work held) : Tracked sys pr c' := by
  intro j call l rest work ok err hj
  by_cases hji : j = i
  · subst hji
    exact hown call l rest work ok err hj
  · rw [hother j hji] at hj
    obtain ⟨held, hr⟩ := h j call l rest work ok err hj
    exact ⟨held, hr.frame (hlocks j hji) (hdb j hji)⟩

theorem place_self (x : Session S K E M R L C) : (c.place i x).sessions i = x :=
  Function.update_self ..

theorem place_other (x : Session S K E M R L C) {j : Nat} (h : j ≠ i) :
    (c.place i x).sessions j = c.sessions j := Function.update_of_ne h ..

theorem release_other {j : Nat} {k : K} (h : j ≠ i) (hk : c.locks k = some j) :
    (c.release i).locks k = some j := by
  have hne : c.locks k ≠ some i := by
    rw [hk]
    exact fun he => h (Option.some.inj he)
  simpa only [Config.release, hne, ↓reduceIte] using hk

theorem take_other [DecidableEq K] {j : Nat} {k k' : K} (h : j ≠ i)
    (hfree : c.locks k = none ∨ c.locks k = some i)
    (hk : c.locks k' = some j) : (c.take i k).locks k' = some j := by
  have hne : k' ≠ k := by
    rintro rfl
    rcases hfree with hf | hf
    · rw [hf] at hk
      cases hk
    · rw [hf] at hk
      exact h (Option.some.inj hk).symm
  simpa only [Config.take, Function.update_of_ne hne] using hk

theorem coarse_place (x : Session S K E M R L C) :
    (c.place i x).coarse = ⟨c.world.db, Function.update (fun j => (c.sessions j).task) i x.task⟩ := by
  simp only [Config.coarse, Config.place, Coarse.mk.injEq, true_and]
  funext j
  by_cases hj : j = i
  · subst hj
    simp only [Function.update_self]
  · simp only [Function.update_of_ne hj]

theorem task_of_session {x : Session S K E M R L C} (h : c.sessions i = x) :
    c.coarse.tasks i = x.task := congrArg Session.task h

/-- A step inside a transaction leaves the task of its process as it was. -/
theorem coarse_same {x : Session S K E M R L C} {t : Option (C × Task S E R L)}
    (h : c.coarse.tasks i = t) (hx : x.task = t) : (c.place i x).coarse = c.coarse := by
  rw [coarse_place, hx, ← h]
  simp only [Config.coarse, Function.update_eq_self]

/-- A process that is not inside a transaction after its step owes nothing. -/
theorem Tracked.of_ready (h : Tracked sys pr c) (call : C) (t : Task S E R L) :
    Tracked sys pr (c.place i (.ready call t)) := by
  apply h.of_own (i := i)
  · exact fun j hj => place_other _ hj
  · exact fun j _ k hk => hk
  · exact fun j _ k _ => pr.refl k _
  · intro call' l rest work ok err hb
    rw [place_self] at hb
    cases hb

theorem Tracked.of_release (h : Tracked sys pr c) : Tracked sys pr ((c.release i).place i .idle) ∧
    ∀ call t, Tracked sys pr ((c.release i).place i (.ready call t)) := by
  constructor
  · apply h.of_own (i := i)
    · exact fun j hj => place_other _ hj
    · exact fun j hj k hk => release_other hj hk
    · exact fun j _ k _ => pr.refl k _
    · intro call' l rest work ok err hb
      rw [place_self] at hb
      cases hb
  · intro call t
    apply h.of_own (i := i)
    · exact fun j hj => place_other _ hj
    · exact fun j hj k hk => release_other hj hk
    · exact fun j _ k _ => pr.refl k _
    · intro call' l rest work ok err hb
      rw [place_self] at hb
      cases hb

/-- After its own statement process `i` is replayable, whatever it did to the
sequence, the broker and the table of locks. -/
theorem Tracked.of_busy (h : Tracked sys pr c) (held : List K)
    (hdb : c'.world.db = c.world.db)
    (hsessions : c'.sessions = Function.update c.sessions i (.busy call l rest work ok err))
    (hlocks : ∀ j, j ≠ i → ∀ k, c.locks k = some j → c'.locks k = some j)
    (hown : Replays sys pr c' i l rest work held) : Tracked sys pr c' := by
  apply h.of_own (i := i)
  · intro j hj
    rw [hsessions, Function.update_of_ne hj]
  · exact hlocks
  · intro j _ k _
    rw [hdb]
    exact pr.refl k _
  · intro call' l' rest' work' ok' err' hb
    rw [hsessions, Function.update_self] at hb
    cases hb
    exact ⟨held, hown⟩

theorem tracked_initial (db : S) : Tracked sys pr (Config.initial db : Config S K E M R L C) := by
  intro i call l rest work ok err hi
  cases hi

/-- The transaction that begins replays itself. -/
theorem tracked_begin (hd : Disciplined sys pr) (h : Tracked sys pr c) :
    Tracked sys pr (c.place i (.busy call l (sys.prog l) id ok err)) :=
  h.of_busy [] rfl rfl (fun _ _ _ hk => hk)
    ⟨fun _ hk => absurd hk List.not_mem_nil, hd.guarded l, .id, fun _ _ _ _ hx => hx⟩

variable [DecidableEq K]

theorem tracked_advance (h : Tracked sys pr c)
    (hi : c.sessions i = .busy call l rest work ok err)
    (hs : c.advance i call l rest work ok err = some c') : Tracked sys pr c' := by
  obtain ⟨held, hr⟩ := h i call l rest work ok err hi
  cases rest with
  | ret r =>
    simp only [Config.advance, Option.some.injEq] at hs
    subst hs
    apply h.of_own (i := i)
    · exact fun j hj => place_other _ hj
    · exact fun j hj k hk => release_other (c := c.write (work c.db)) hj hk
    · intro j hj k hk
      -- A lock of another process is none of ours, so our writes spare its rows.
      apply hr.respects.outside k
      intro hm
      rw [hr.owned k hm] at hk
      exact hj (Option.some.inj hk).symm
    · intro call' l' rest' work' ok' err' hb
      rw [place_self] at hb
      cases hb
  | raise e =>
    simp only [Config.advance, Option.some.injEq] at hs
    subst hs
    exact h.of_release.2 call (err e)
  | lock k p =>
    simp only [Config.advance] at hs
    split at hs
    · rename_i hfree
      simp only [Option.some.injEq] at hs
      subst hs
      refine h.of_busy (k :: held) rfl rfl
        (fun j hj k' hk' => take_other hj hfree hk') ⟨?_, hr.guarded, hr.respects.cons k, ?_⟩
      · intro k' hk'
        by_cases he : k' = k
        · subst he
          exact Function.update_self ..
        · have hold := hr.owned k' (by
            rcases List.mem_cons.mp hk' with hm | hm
            · exact absurd hm he
            · exact hm)
          exact (Function.update_of_ne he _ _).trans hold
      · exact fun s hs out t hx => hr.replay s hs.tail out t hx
    · cases hs
  | stmt f p =>
    simp only [Config.advance, Option.some.injEq] at hs
    subst hs
    obtain ⟨hread, hwrite, hrest⟩ := hr.guarded
    refine h.of_busy held rfl rfl (fun _ _ _ hk => hk) ⟨hr.owned, hrest _, hr.respects.comp hwrite, ?_⟩
    intro s hs out t hx
    apply hr.replay s hs out t
    -- The rows it read are protected, so the replay reads the same.
    have hsame : p (work c.db) = p (work s) := hread _ _ (hr.respects.inside _ _ hs)
    rw [hsame] at hx
    exact hx
  | peek p =>
    simp only [Config.advance, Option.some.injEq] at hs
    subst hs
    refine h.of_busy held rfl rfl (fun _ _ _ hk => hk) ⟨hr.owned, hr.guarded _, hr.respects, ?_⟩
    exact fun s hs out t hx => hr.replay s hs out t ⟨work c.db, trivial, hx⟩
  | fresh p =>
    simp only [Config.advance, Option.some.injEq] at hs
    subst hs
    refine h.of_busy held rfl rfl (fun _ _ _ hk => hk) ⟨hr.owned, hr.guarded _, hr.respects, ?_⟩
    exact fun s hs out t hx => hr.replay s hs out t ⟨c.world.seq, hx⟩
  | publish m p =>
    simp only [Config.advance, Option.some.injEq] at hs
    subst hs
    refine h.of_busy held rfl rfl (fun _ _ _ hk => hk) ⟨hr.owned, hr.guarded, hr.respects, ?_⟩
    exact fun s hs out t hx => hr.replay s hs out t hx

theorem tracked_step (hd : Disciplined sys pr) (h : Tracked sys pr c) {ev : Event C V}
    (hs : sys.step c ev = some c') : Tracked sys pr c' := by
  cases ev with
  | outside v =>
    simp only [System.step, Option.some.injEq] at hs
    subst hs
    intro j call l rest work ok err hj
    obtain ⟨held, hr⟩ := h j call l rest work ok err hj
    exact ⟨held, hr.frame (fun _ hk => hk) (fun k _ => hd.outside v _ k)⟩
  | call i call =>
    simp only [System.step] at hs
    split at hs
    · cases hs
      exact h.of_ready call _
    · cases hs
  | act i =>
    simp only [System.step, System.act] at hs
    split at hs
    · cases hs
    · split at hs
      · cases hs
      · cases hs
      · cases hs
        exact h.of_ready _ _
      · cases hs
        exact tracked_begin hd h
    · rename_i hi
      exact tracked_advance h hi hs
  | fault i =>
    simp only [System.step, System.strike] at hs
    split at hs
    · cases hs
    · split at hs
      · cases hs
      · cases hs
      · cases hs
        exact h.of_ready _ _
      · cases hs
        exact h.of_ready _ _
    · cases hs
      exact h.of_release.2 _ _
  | crash i =>
    simp only [System.step] at hs
    split at hs
    · cases hs
    · cases hs
      exact h.of_release.1

/-- Locked transactions are atomic: every event of the interleaved system is a step
of the coarse one, or is not seen there at all. -/
theorem step_coarse {cond : C → L → S → Prop} (h : Tracked sys pr c) {ev : Event C V}
    (hs : sys.step c ev = some c')
    (hcond : ∀ call l, c.commits ev = some (call, l) → cond call l c.world.db) :
    c'.coarse = c.coarse ∨ Coarse.Step sys cond c.coarse c'.coarse := by
  cases ev with
  | outside v =>
    simp only [System.step, Option.some.injEq] at hs
    subst hs
    exact .inr (.outside v)
  | call i call =>
    simp only [System.step] at hs
    split at hs
    · rename_i hi
      cases hs
      rw [coarse_place]
      exact .inr (.call call (by simp only [hi, Session.task]))
    · cases hs
  | act i =>
    simp only [System.step, System.act] at hs
    split at hs
    · cases hs
    · rename_i call task hi
      split at hs
      · cases hs
      · cases hs
      · cases hs
        rw [coarse_place]
        exact .inr (.look (task_of_session hi))
      · rename_i l ok err
        cases hs
        exact .inl (coarse_same (task_of_session hi) rfl)
    · rename_i call l rest work ok err hi
      have htask := task_of_session hi
      obtain ⟨held, hr⟩ := h i call l rest work ok err hi
      cases rest with
      | ret r =>
        cases hs
        rw [coarse_place]
        refine .inr (.commit htask (hcond call l (by simp only [Config.commits, hi])) ?_)
        exact hr.replay _ (.refl _) _ _ ⟨rfl, rfl⟩
      | raise e =>
        cases hs
        rw [coarse_place]
        exact .inr (.abort htask (hr.replay _ (.refl _) _ _ ⟨rfl, rfl⟩))
      | lock k p =>
        simp only [Config.advance] at hs
        split at hs
        · cases hs
          exact .inl (coarse_same (c := c.take i k) htask rfl)
        · cases hs
      | stmt f p | peek p =>
        cases hs
        exact .inl (coarse_same htask rfl)
      | fresh p =>
        cases hs
        exact .inl (coarse_same (c := { c with world := { c.world with seq := _ } }) htask rfl)
      | publish m p =>
        cases hs
        exact .inl (coarse_same (c := { c with world := { c.world with queue := _ } }) htask rfl)
  | fault i =>
    simp only [System.step, System.strike] at hs
    split at hs
    · cases hs
    · rename_i call task hi
      split at hs
      · cases hs
      · cases hs
      · cases hs
        rw [coarse_place]
        exact .inr (.faultLook (task_of_session hi))
      · cases hs
        rw [coarse_place]
        exact .inr (.faultTx (task_of_session hi))
    · rename_i hi
      cases hs
      rw [coarse_place]
      exact .inr (.faultTx (task_of_session hi))
  | crash i =>
    simp only [System.step] at hs
    split at hs
    · cases hs
    · cases hs
      rw [coarse_place]
      exact .inr .crash

end Proof

end Transactions
