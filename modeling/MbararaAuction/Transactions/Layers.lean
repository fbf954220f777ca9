import MbararaAuction.Transactions.Scripts

namespace Transactions

section Layer
variable {S K E M R P L C D V : Type}

/-- A process of the layer, and the same process of the system below: idle between two
calls of its script, in step with it inside one. -/
inductive Above (sys : System S K E M R L C V) :
    Session S K E M (R ⊕ P) L D → Session S K E M R L C → Prop where
  | idle : Above sys .idle .idle
  | between (d : D) (x : Script S E R P C) : Above sys (.ready d (x.task sys)) .idle
  | ready (d : D) (c : C) (t : Task S E R L) (next : Except E R → Script S E R P C) :
      Above sys (.ready d (t.andThen fun out => (next out).task sys)) (.ready c t)
  | busy (d : D) (c : C) (l : L) (rest : Tx S K E M R) (work : S → S) (ok : R → Task S E R L)
      (err : E → Task S E R L) (next : Except E R → Script S E R P C) :
      Above sys
        (.busy d l (Sum.inl <$> rest) work
          (Sum.elim (fun r => (ok r).andThen fun out => (next out).task sys)
            fun page => .done (.inr page))
          fun e => (err e).andThen fun out => (next out).task sys)
        (.busy c l rest work ok err)

/-- The layer stands above a state of the system: the same rows, the same locks. -/
structure Layered (sys : System S K E M R L C V) (c' : Config S K E M (R ⊕ P) L D)
    (c : Config S K E M R L C) : Prop where
  world : c'.world = c.world
  locks : c'.locks = c.locks
  sessions : ∀ i, Above sys (c'.sessions i) (c.sessions i)
  owned : ∀ i, (c.sessions i).isBusy = false → ∀ k, c.locks k ≠ some i

/-- Where a process of the layer has arrived at its next move, and the process below with it. -/
inductive Settled (sys : System S K E M R L C V) :
    Session S K E M (R ⊕ P) L D → Session S K E M R L C → Prop where
  | idle : Settled sys .idle .idle
  | answered (d : D) (page : P) : Settled sys (.ready d (.done (.inr page))) .idle
  | failed (d : D) (e : E) : Settled sys (.ready d (.fail e)) .idle
  | outside (d : D) (rest : S → Script S E R P C) :
      Settled sys (.ready d (.look fun s => (rest s).task sys)) .idle
  | looks (d : D) (c : C) (rest : S → Task S E R L) (next : Except E R → Script S E R P C) :
      Settled sys (.ready d ((Task.look rest).andThen fun out => (next out).task sys))
        (.ready c (.look rest))
  | begins (d : D) (c : C) (l : L) (ok : R → Task S E R L) (err : E → Task S E R L)
      (next : Except E R → Script S E R P C) :
      Settled sys (.ready d ((Task.tx l ok err).andThen fun out => (next out).task sys))
        (.ready c (.tx l ok err))
  | busy (d : D) (c : C) (l : L) (rest : Tx S K E M R) (work : S → S) (ok : R → Task S E R L)
      (err : E → Task S E R L) (next : Except E R → Script S E R P C) :
      Settled sys
        (.busy d l (Sum.inl <$> rest) work
          (Sum.elim (fun r => (ok r).andThen fun out => (next out).task sys)
            fun page => .done (.inr page))
          fun e => (err e).andThen fun out => (next out).task sys)
        (.busy c l rest work ok err)

section Frames
variable {sys : System S K E M R L C V} {c' : Config S K E M (R ⊕ P) L D} {c : Config S K E M R L C}
variable {i : Nat}

theorem release_unowned (h : ∀ k, c.locks k ≠ some i) : c.release i = c := by
  cases c
  simp only [Config.release, Config.mk.injEq, true_and, and_true]
  funext k
  rw [if_neg (h k)]

theorem place_same {y : Session S K E M R L C} (hi : c.sessions i = y) : c.place i y = c := by
  subst hi
  simp [Config.place]

theorem layered_initial (db : S) :
    Layered sys (Config.initial db : Config S K E M (R ⊕ P) L D) (Config.initial db) where
  world := rfl
  locks := rfl
  sessions := fun _ => .idle
  owned := fun _ _ _ hk => by cases hk

/-- Process `i` moves on, above and below. -/
theorem Layered.place {x : Session S K E M (R ⊕ P) L D} {y : Session S K E M R L C}
    (h : Layered sys c' c) (hxy : Above sys x y)
    (hown : y.isBusy = false → ∀ k, c.locks k ≠ some i) :
    Layered sys (c'.place i x) (c.place i y) where
  world := h.world
  locks := h.locks
  sessions := by
    intro j
    by_cases hj : j = i
    · subst hj
      rwa [place_self, place_self]
    · rw [place_other _ hj, place_other _ hj]
      exact h.sessions j
  owned := by
    intro j hbusy
    by_cases hj : j = i
    · subst hj
      rw [place_self] at hbusy
      exact hown hbusy
    · rw [place_other _ hj] at hbusy
      exact h.owned j hbusy

/-- Only the process below moves. -/
theorem Layered.settle {y : Session S K E M R L C} (h : Layered sys c' c)
    (hy : Above sys (c'.sessions i) y) (hown : y.isBusy = false → ∀ k, c.locks k ≠ some i) :
    Layered sys c' (c.place i y) := by
  have hplaced := h.place hy hown
  rwa [place_same rfl] at hplaced

theorem Layered.release (h : Layered sys c' c) (j : Nat) :
    Layered sys (c'.release j) (c.release j) where
  world := h.world
  locks := by simp only [Config.release, h.locks]
  sessions := h.sessions
  owned := by
    intro i hbusy k hk
    simp only [Config.release] at hk
    split at hk
    · cases hk
    · exact h.owned i hbusy k hk

theorem Layered.rows (h : Layered sys c' c) (w : World S M) :
    Layered sys { c' with world := w } { c with world := w } where
  world := rfl
  locks := h.locks
  sessions := h.sessions
  owned := h.owned

theorem Layered.take [DecidableEq K] (h : Layered sys c' c) (hi : (c.sessions i).isBusy = true)
    (k : K) : Layered sys (c'.take i k) (c.take i k) where
  world := h.world
  locks := by simp only [Config.take, h.locks]
  sessions := h.sessions
  owned := by
    intro j hbusy k' hk
    by_cases hkk : k' = k
    · subst hkk
      simp only [Config.take, Function.update_self, Option.some.injEq] at hk
      subst hk
      have hboth : (c.sessions i).isBusy = false := hbusy
      rw [hi] at hboth
      cases hboth
    · simp only [Config.take, Function.update_of_ne hkk] at hk
      exact h.owned j hbusy k' hk

end Frames

section Steps
variable [DecidableEq K] {sys : System S K E M R L C V} {c' : Config S K E M (R ⊕ P) L D}
variable {c : Config S K E M R L C} {i : Nat}

/-- A finished call leaves its process: the next one begins on a fresh process. -/
theorem Layered.forget (h : Layered sys c' c) {call : C} {t : Task S E R L}
    (hi : c.sessions i = .ready call t) (habove : Above sys (c'.sessions i) .idle) :
    ∃ d, Reachable sys.step c d ∧ d.sessions i = .idle ∧ Layered sys c' d := by
  have hfree := h.owned i (by rw [hi]; rfl)
  refine ⟨c.place i .idle, .single (.crash i) ?_, place_self _, h.settle habove fun _ => hfree⟩
  simp only [System.step, hi, release_unowned hfree]

/-- Between two calls, the process below is brought to where the script goes on. -/
theorem Layered.between (d : D) (x : Script S E R P C) (h : Layered sys c' c)
    (hi' : c'.sessions i = .ready d (x.task sys)) (hi : c.sessions i = .idle) :
    ∃ b, Reachable sys.step c b ∧ Layered sys c' b ∧ Settled sys (c'.sessions i) (b.sessions i) := by
  induction x generalizing c with
  | answer page =>
    refine ⟨c, .refl, h, ?_⟩
    rw [hi', hi]
    exact .answered d page
  | fail e =>
    refine ⟨c, .refl, h, ?_⟩
    rw [hi', hi]
    exact .failed d e
  | look rest =>
    refine ⟨c, .refl, h, ?_⟩
    rw [hi', hi]
    exact .outside d rest
  | call call next ih =>
    have hfree := h.owned i (by rw [hi]; rfl)
    have habove : Above sys (c'.sessions i) (.ready call (sys.body call)) := by
      rw [hi']
      exact .ready d call _ next
    have hcalled := h.settle habove fun _ => hfree
    have hcall : Reachable sys.step c (c.place i (.ready call (sys.body call))) :=
      .single (.call i call) (by simp only [System.step, hi])
    have hself := place_self (c := c) (i := i) (.ready call (sys.body call))
    simp only [Script.task] at hi'
    -- A body that is over at once leads to the next call; any other has a move to make.
    have hover : ∀ out : Except E R, ((sys.body call).andThen fun out => (next out).task sys) =
        (next out).task sys → ∃ b, Reachable sys.step c b ∧ Layered sys c' b ∧
          Settled sys (c'.sessions i) (b.sessions i) := by
      intro out hout
      rw [hout] at hi'
      obtain ⟨b, hb, hidle, hlayered⟩ := hcalled.forget hself (by rw [hi']; exact .between d _)
      obtain ⟨b', hb', hsettled⟩ := ih out hlayered hi' hidle
      exact ⟨b', hcall.trans (hb.trans hb'), hsettled⟩
    cases hbody : sys.body call with
    | done r => exact hover (.ok r) (by rw [hbody]; rfl)
    | fail e => exact hover (.error e) (by rw [hbody]; rfl)
    | look rest =>
      refine ⟨_, hcall, hcalled, ?_⟩
      rw [hself, hi', hbody]
      exact .looks d call rest next
    | tx l ok err =>
      refine ⟨_, hcall, hcalled, ?_⟩
      rw [hself, hi', hbody]
      exact .begins d call l ok err next

/-- Steps of the process below alone bring it to its next move. -/
theorem Layered.settled (h : Layered sys c' c) (i : Nat) :
    ∃ b, Reachable sys.step c b ∧ Layered sys c' b ∧ Settled sys (c'.sessions i) (b.sessions i) := by
  have habove := h.sessions i
  generalize hx : c'.sessions i = x at habove
  generalize hy : c.sessions i = y at habove
  cases habove with
  | idle =>
    refine ⟨c, .refl, h, ?_⟩
    rw [hy]
    exact .idle
  | between d s =>
    obtain ⟨b, hb, hlayered, hsettled⟩ := Layered.between d s h hx hy
    rw [hx] at hsettled
    exact ⟨b, hb, hlayered, hsettled⟩
  | ready d call t next =>
    have hover : ∀ out : Except E R, (t.andThen fun out => (next out).task sys) =
        (next out).task sys → ∃ b, Reachable sys.step c b ∧ Layered sys c' b ∧
          Settled sys (.ready d (t.andThen fun out => (next out).task sys)) (b.sessions i) := by
      intro out hout
      rw [hout] at hx ⊢
      obtain ⟨b, hb, hidle, hlayered⟩ := h.forget hy (by rw [hx]; exact .between d _)
      obtain ⟨b', hb', hlayered', hsettled⟩ := Layered.between d _ hlayered hx hidle
      rw [hx] at hsettled
      exact ⟨b', hb.trans hb', hlayered', hsettled⟩
    cases t with
    | done r => exact hover (.ok r) rfl
    | fail e => exact hover (.error e) rfl
    | look rest =>
      refine ⟨c, .refl, h, ?_⟩
      rw [hy]
      exact .looks d call rest next
    | tx l ok err =>
      refine ⟨c, .refl, h, ?_⟩
      rw [hy]
      exact .begins d call l ok err next
  | busy d call l rest work ok err next =>
    refine ⟨c, .refl, h, ?_⟩
    rw [hy]
    exact .busy d call l rest work ok err next

/-- A statement of a transaction, above and below. -/
theorem layered_advance {d : D} {call : C} {l : L} {rest : Tx S K E M R} {work : S → S}
    {ok : R → Task S E R L} {err : E → Task S E R L} {next : Except E R → Script S E R P C}
    {b' : Config S K E M (R ⊕ P) L D} (h : Layered sys c' c)
    (hi : c.sessions i = .busy call l rest work ok err)
    (hs : c'.advance i d l (Sum.inl <$> rest) work
      (Sum.elim (fun r => (ok r).andThen fun out => (next out).task sys)
        fun page => .done (.inr page))
      (fun e => (err e).andThen fun out => (next out).task sys) = some b') :
    ∃ b, c.advance i call l rest work ok err = some b ∧ Layered sys b' b := by
  have hbusy : (c.sessions i).isBusy = true := by rw [hi]; rfl
  have hdb : c'.db = c.db := congrArg World.db h.world
  cases rest with
  | ret r =>
    cases hs
    refine ⟨_, rfl, ?_⟩
    simp only [Config.write, hdb, h.world]
    exact ((h.rows _).release i).place (.ready d call (ok r) next) fun _ => release_none
  | raise e =>
    cases hs
    exact ⟨_, rfl, (h.release i).place (.ready d call (err e) next) fun _ => release_none⟩
  | lock k p =>
    change (if c'.locks k = none ∨ c'.locks k = some i then _ else _) = _ at hs
    rw [h.locks] at hs
    simp only [Config.advance]
    split at hs
    · next hfree =>
      cases hs
      rw [if_pos hfree]
      refine ⟨_, rfl, (h.take hbusy k).place (.busy d call l p work ok err next) ?_⟩
      exact fun hn => by cases hn
    · cases hs
  | stmt f p =>
    cases hs
    refine ⟨_, rfl, ?_⟩
    rw [hdb]
    exact h.place (.busy d call l _ _ ok err next) fun hn => by cases hn
  | peek p =>
    cases hs
    refine ⟨_, rfl, ?_⟩
    rw [hdb]
    exact h.place (.busy d call l _ _ ok err next) fun hn => by cases hn
  | fresh p =>
    cases hs
    refine ⟨_, rfl, ?_⟩
    simp only [h.world]
    exact (h.rows _).place (.busy d call l _ work ok err next) fun hn => by cases hn
  | publish m p =>
    cases hs
    refine ⟨_, rfl, ?_⟩
    simp only [h.world]
    exact (h.rows _).place (.busy d call l p work ok err next) fun hn => by cases hn

/-- A move of a process of the layer is a move of the process below, or concerns it not. -/
theorem layered_act (h : Layered sys c' c) (script : D → Script S E R P C)
    (hsettled : Settled sys (c'.sessions i) (c.sessions i)) {b' : Config S K E M (R ⊕ P) L D}
    (hs : (sys.layer script).act c' i = some b') :
    ∃ b, Reachable sys.step c b ∧ Layered sys b' b := by
  have hdb : c'.db = c.db := congrArg World.db h.world
  have hfree := h.owned i
  unfold System.act at hs
  generalize hx : c'.sessions i = x at hsettled hs
  generalize hy : c.sessions i = y at hsettled hfree
  cases hsettled with
  | idle | answered | failed => cases hs
  | outside d rest =>
    cases hs
    refine ⟨c.place i .idle, ?_, h.place (.between d _) hfree⟩
    rw [place_same hy]
    exact .refl
  | looks d call rest next =>
    cases hs
    rw [hdb]
    refine ⟨_, .single (.act i) ?_, h.place (.ready d call (rest c.db) next) fun _ => hfree rfl⟩
    simp only [System.step, System.act, hy]
  | begins d call l ok err next =>
    cases hs
    refine ⟨_, .single (.act i) ?_, h.place (.busy d call l (sys.prog l) id ok err next) fun hn => ?_⟩
    · simp only [System.step, System.act, hy]
    · cases hn
  | busy d call l rest work ok err next =>
    obtain ⟨b, hb, hlayered⟩ := layered_advance h hy hs
    refine ⟨b, .single (.act i) ?_, hlayered⟩
    simpa only [System.step, System.act, hy] using hb

/-- A fault in the layer is a fault below, or between two calls. -/
theorem layered_strike (h : Layered sys c' c) (script : D → Script S E R P C)
    (hsettled : Settled sys (c'.sessions i) (c.sessions i)) {b' : Config S K E M (R ⊕ P) L D}
    (hs : (sys.layer script).strike c' i = some b') :
    ∃ b, Reachable sys.step c b ∧ Layered sys b' b := by
  have hfree := h.owned i
  unfold System.strike at hs
  generalize hx : c'.sessions i = x at hsettled hs
  generalize hy : c.sessions i = y at hsettled hfree
  cases hsettled with
  | idle | answered | failed => cases hs
  | outside d rest =>
    cases hs
    refine ⟨c.place i .idle, ?_, h.place (.between d (.fail sys.fault)) hfree⟩
    rw [place_same hy]
    exact .refl
  | looks d call rest next =>
    cases hs
    -- The exception leaves the whole script: the call below is over.
    refine ⟨c.place i .idle, .single (.crash i) ?_,
      h.place (.between d (.fail sys.fault)) fun _ => hfree rfl⟩
    simp only [System.step, hy, release_unowned (hfree rfl)]
  | begins d call l ok err next =>
    cases hs
    refine ⟨_, .single (.fault i) ?_, h.place (.ready d call (err sys.fault) next) fun _ => hfree rfl⟩
    simp only [System.step, System.strike, hy]
  | busy d call l rest work ok err next =>
    cases hs
    refine ⟨_, .single (.fault i) ?_, (h.release i).place (.ready d call (err sys.fault) next)
      fun _ => release_none⟩
    simp only [System.step, System.strike, hy]

/-- Every event of the layer is matched below by events that lead to the same rows and locks. -/
theorem layered_step (h : Layered sys c' c) (script : D → Script S E R P C) {ev : Event D V}
    {b' : Config S K E M (R ⊕ P) L D} (hs : (sys.layer script).step c' ev = some b') :
    ∃ b, Reachable sys.step c b ∧ Layered sys b' b := by
  cases ev with
  | outside v =>
    cases hs
    refine ⟨c.write (sys.outside v c.db), .single (.outside v) rfl, ?_⟩
    simp only [Config.write, Config.db, h.world]
    exact h.rows _
  | call i d =>
    simp only [System.step] at hs
    split at hs
    · next hi =>
      cases hs
      have habove := h.sessions i
      rw [hi] at habove
      generalize hy : c.sessions i = y at habove
      cases habove
      refine ⟨c.place i .idle, ?_, h.place (.between d (script d)) fun _ => h.owned i (by rw [hy]; rfl)⟩
      rw [place_same hy]
      exact .refl
    · cases hs
  | act i =>
    obtain ⟨b, hb, hlayered, hsettled⟩ := h.settled i
    obtain ⟨e, he, hlater⟩ := layered_act hlayered script hsettled hs
    exact ⟨e, hb.trans he, hlater⟩
  | fault i =>
    obtain ⟨b, hb, hlayered, hsettled⟩ := h.settled i
    obtain ⟨e, he, hlater⟩ := layered_strike hlayered script hsettled hs
    exact ⟨e, hb.trans he, hlater⟩
  | crash i =>
    have hcrash : b' = (c'.release i).place i .idle := by
      simp only [System.step] at hs
      split at hs
      · cases hs
      · cases hs
        rfl
    subst hcrash
    refine ⟨(c.release i).place i .idle, ?_, (h.release i).place .idle fun _ => release_none⟩
    cases hy : c.sessions i with
    | idle =>
      rw [release_unowned (h.owned i (by rw [hy]; rfl)), place_same hy]
      exact .refl
    | ready | busy => exact .single (.crash i) (by simp only [System.step, hy])

omit [DecidableEq K] in
/-- What a run has passed through, it has passed through when it goes on. -/
theorem Run.mem_trail_append {X A : Type} {step : X → A → Option X} {x x' y : X}
    {before after : List (X × A)} (hlater : Run step x after x') (hy : y ∈ trail before x) :
    y ∈ trail (before ++ after) x' := by
  rw [trail, List.map_append, List.append_assoc]
  rcases List.mem_append.mp hy with hy | hy
  · exact List.mem_append_left _ hy
  · rw [List.mem_singleton.mp hy]
    exact List.mem_append_right _ hlater.first_mem_trail

/-- Every run of the layer is matched by a run of the system below, state for state. -/
theorem Run.layered {script : D → Script S E R P C}
    {before : List (Config S K E M (R ⊕ P) L D × Event D V)} {first' b' : Config S K E M (R ⊕ P) L D}
    {first : Config S K E M R L C} (hrun : Run (sys.layer script).step first' before b')
    (hfirst : Layered sys first' first) : ∃ past b, Run sys.step first past b ∧ Layered sys b' b ∧
      ∀ y ∈ trail before b', ∃ z ∈ trail past b, Layered sys y z := by
  induction hrun with
  | start =>
    refine ⟨[], first, .start, hfirst, fun y hy => ⟨first, mem_trail_last, ?_⟩⟩
    rwa [List.mem_singleton.mp hy]
  | snoc run taken ih =>
    obtain ⟨past, c, hc, hlayered, htrail⟩ := ih
    obtain ⟨b, ⟨later, hb⟩, hlater⟩ := layered_step hlayered script taken
    refine ⟨past ++ later, b, hc.trans hb, hlater, fun y hy => ?_⟩
    rcases mem_trail_snoc.mp hy with hold | rfl
    · obtain ⟨z, hz, hyz⟩ := htrail y hold
      exact ⟨z, hb.mem_trail_append hz, hyz⟩
    · exact ⟨b, mem_trail_last, hlater⟩

/-- Every moment of the layer stands above a moment of the system, and every earlier one
above an earlier one. -/
theorem layered_moment {script : D → Script S E R P C} {db : S} (m : (sys.layer script).Moment db) :
    ∃ n : sys.Moment db, Layered sys m.now n.now ∧ ∀ m' : (sys.layer script).Moment db, m'.Leads m →
      ∃ n' : sys.Moment db, n'.Leads n ∧ Layered sys m'.now n'.now := by
  obtain ⟨past, b, hb, hlayered, htrail⟩ := m.run.layered (layered_initial db)
  refine ⟨⟨past, b, hb⟩, hlayered, fun m' hm => ?_⟩
  obtain ⟨z, hz, hmz⟩ := htrail m'.now hm.mem_trail
  obtain ⟨n', rfl, hn⟩ := Moment.of_trail ⟨past, b, hb⟩ hz
  exact ⟨n', hn, hmz⟩

end Steps

end Layer

end Transactions
