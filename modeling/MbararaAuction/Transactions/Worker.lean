import MbararaAuction.Transactions.Postbox

namespace Transactions

/-- The processes, and what a worker has made of their messages: the place of every
message it has taken in the queue, and what came of it. -/
structure Desk (S K E M R L C D : Type) where
  site : Config S K E M R L C
  taken : List (Nat × D)

/-- The processes move, or the worker takes the message at some place of the queue. -/
inductive DeskEvent (C V : Type) where
  | site (ev : Event C V)
  | take (n : Nat)

section Desk
variable {S K E M R L C V D : Type} [DecidableEq K]

/-- The worker takes messages in any order, each at most once, and reads the committed
rows. -/
def Desk.step (sys : System S K E M R L C V) (deliver : M → S → D) (o : Desk S K E M R L C D) :
    DeskEvent C V → Option (Desk S K E M R L C D)
  | .site ev => (sys.step o.site ev).map fun c => { o with site := c }
  | .take n =>
    match o.site.world.queue[n]? with
    | none => none
    | some m =>
      if n ∈ o.taken.map Prod.fst then none
      else some { o with taken := o.taken ++ [(n, deliver m o.site.db)] }

/-- No message yet. -/
def Desk.opened (db : S) : Desk S K E M R L C D := ⟨Config.initial db, []⟩

variable {sys : System S K E M R L C V} {deliver : M → S → D} {db : S}
variable {o : Desk S K E M R L C D} {before : List (Desk S K E M R L C D × DeskEvent C V)}

/-- The worker disturbs nobody. -/
theorem Run.site (hrun : Run (Desk.step sys deliver) (Desk.opened db) before o) :
    ∃ past, Run sys.step (Config.initial db) past o.site ∧
      ∀ x ∈ past, ∃ y ∈ before, y.1.site = x.1 ∧ y.2 = .site x.2 := by
  induction hrun with
  | start => exact ⟨[], .start, fun x hx => by cases hx⟩
  | @snoc before o o' ev run taken ih =>
    obtain ⟨past, hpast, hfrom⟩ := ih
    have hlift : ∀ x ∈ past, ∃ y ∈ before ++ [(o, ev)], y.1.site = x.1 ∧ y.2 = .site x.2 := by
      intro x hx
      obtain ⟨y, hy, heq⟩ := hfrom x hx
      exact ⟨y, List.mem_append_left _ hy, heq⟩
    cases ev with
    | site ev =>
      obtain ⟨c, hs, rfl⟩ := Option.map_eq_some_iff.mp taken
      refine ⟨past ++ [(o.site, ev)], hpast.snoc hs, fun x hx => ?_⟩
      rcases List.mem_append.mp hx with hx | hx
      · exact hlift x hx
      · rw [List.mem_singleton.mp hx]
        exact ⟨_, List.mem_append_right _ (List.mem_singleton_self _), rfl, rfl⟩
    | take n =>
      refine ⟨past, ?_, hlift⟩
      simp only [Desk.step] at taken
      split at taken
      · cases taken
      · split at taken
        · cases taken
        · cases taken
          exact hpast

/-- A process that no event is about has no task at any time. -/
theorem Run.desk_idle {i : Nat} (hrun : Run (Desk.step sys deliver) (Desk.opened db) before o)
    (h : ∀ x ∈ before, ∀ ev, x.2 = .site ev → ev.process ≠ some i) :
    ∀ y ∈ trail before o, (y.site.sessions i).task = none := by
  intro y hy
  obtain ⟨b, after, hb, _, rfl⟩ := hrun.of_trail hy
  obtain ⟨past, hpast, hfrom⟩ := hb.site
  refine hpast.idle rfl fun x hx => ?_
  obtain ⟨z, hz, _, hev⟩ := hfrom x hx
  exact h z (List.mem_append_left _ hz) x.2 hev

end Desk

section Announcing
variable {S K E M R L C V : Type}

/-- The task publishes only messages about rows that `own` holds or that it has
committed itself. -/
def Task.Announces (sys : System S K E M R L C V) (stored : M → S → Prop) (own : M → Prop) :
    Task S E R L → Prop
  | done _ | fail _ => True
  | look rest => ∀ s, (rest s).Announces sys stored own
  | tx l ok err => (sys.prog l).Announces stored own ∧
    (∀ r, (ok r).Announces sys stored fun m =>
      own m ∨ ∀ s s', (sys.prog l).Exec Anything s (.ok r) s' → stored m s') ∧
    ∀ e, (err e).Announces sys stored own

/-- Whether an open transaction has written the row of `m`. -/
def Session.Holds (stored : M → S → Prop) (m : M) : Session S K E M R L C → Prop
  | idle | ready _ _ => False
  | busy _ _ _ work _ _ => ∀ s, stored m (work s)

/-- Whether a transaction is open. -/
def Session.open_ : Session S K E M R L C → Bool
  | idle | ready _ _ => false
  | busy _ _ _ _ _ _ => true

/-- An open transaction has written the row of `m`, and raises only what is `late` from here
on. -/
def Session.Vouches (stored : M → S → Prop) (late : L → E → Prop) (m : M) :
    Session S K E M R L C → Prop
  | idle | ready _ _ => False
  | busy _ l rest work _ _ => (∀ s, stored m (work s)) ∧ rest.Admits (late l)

/-- What a process still publishes is about rows that are committed by then, or in its
open transaction. -/
def Session.Announces (sys : System S K E M R L C V) (stored : M → S → Prop)
    (W : (S → S) → Prop) (late : L → E → Prop) (s : S) : Session S K E M R L C → Prop
  | idle => True
  | ready _ task => task.Announces sys stored (stored · s)
  | busy _ l rest work ok err =>
    rest.Announces stored (fun m => stored m s ∨ ∀ t, stored m (work t)) ∧ rest.Writes W ∧
      rest.Firm (late l) ∧ (∀ m t, stored m t → stored m (work t)) ∧
      (∀ r, (ok r).Announces sys stored fun m =>
        stored m s ∨ ∀ t t', (sys.prog l).Exec Anything t (.ok r) t' → stored m t') ∧
      ∀ e, (err e).Announces sys stored (stored · s)

variable {sys : System S K E M R L C V} {stored : M → S → Prop} {W : (S → S) → Prop}
variable {late : L → E → Prop} {sends : L → M → Prop}
variable {own own' : M → Prop} {c c' : Config S K E M R L C} {ev : Event C V} {i j : Nat} {m : M}

theorem Session.Vouches.holds {x : Session S K E M R L C} (h : x.Vouches stored late m) :
    x.Holds stored m := by
  cases x with
  | idle | ready => exact h
  | busy => exact h.1

theorem Session.Holds.open_ {x : Session S K E M R L C} (h : x.Holds stored m) : x.open_ = true := by
  cases x with
  | idle | ready => exact h.elim
  | busy => rfl

theorem Tx.Announces.mono {α : Type} {p : Tx S K E M α} (h : p.Announces stored own)
    (hsub : ∀ m, own m → own' m) : p.Announces stored own' := by
  induction p generalizing own own' with
  | ret a => trivial
  | raise e => trivial
  | lock k rest ih => exact ih h hsub
  | stmt write rest ih => exact fun s => ih s (h s) fun m => Or.imp_left (hsub m)
  | peek rest ih => exact fun s => ih s (h s) hsub
  | fresh rest ih => exact fun n => ih n (h n) hsub
  | publish m rest ih => exact ⟨hsub m h.1, ih h.2 hsub⟩

theorem Task.Announces.mono {t : Task S E R L} (h : t.Announces sys stored own)
    (hsub : ∀ m, own m → own' m) : t.Announces sys stored own' := by
  induction t generalizing own own' with
  | done r => trivial
  | fail e => trivial
  | look rest ih => exact fun s => ih s (h s) hsub
  | tx l ok err ihok iherr =>
    exact ⟨h.1.mono hsub, fun r => ihok r (h.2.1 r) fun m => Or.imp_left (hsub m),
      fun e => iherr e (h.2.2 e) hsub⟩

theorem Session.Announces.mono {x : Session S K E M R L C} {s s' : S}
    (h : x.Announces sys stored W late s) (hsub : ∀ m, stored m s → stored m s') :
    x.Announces sys stored W late s' := by
  cases x with
  | idle => trivial
  | ready call task => exact Task.Announces.mono h hsub
  | busy call l rest work ok err =>
    obtain ⟨hrest, hwrites, hfirm, hwork, hok, herr⟩ := h
    exact ⟨hrest.mono fun m => Or.imp_left (hsub m), hwrites, hfirm, hwork,
      fun r => (hok r).mono fun m => Or.imp_left (hsub m), fun e => (herr e).mono hsub⟩

/-- What makes a system announce only what it stores: its writes keep what is stored, and so
does the outside; and what a transaction might raise after it has published never happens. -/
structure Announcing (sys : System S K E M R L C V) (stored : M → S → Prop)
    (W : (S → S) → Prop) (late : L → E → Prop) : Prop where
  keeps : ∀ {write}, W write → ∀ {m s}, stored m s → stored m (write s)
  outside : ∀ v {m s}, stored m s → stored m (sys.outside v s)
  writes : ∀ l, (sys.prog l).Writes W
  firm : ∀ l, (sys.prog l).Firm (late l)
  never : ∀ {l s e t}, (sys.prog l).Exec Anything s (.error e) t → ¬ late l e
  body : ∀ call own, (sys.body call).Announces sys stored own

variable [DecidableEq K] {pr : Protection K S}

/-- What is stored stays, and every process announces what is stored. -/
structure Announced (sys : System S K E M R L C V) (stored : M → S → Prop)
    (W : (S → S) → Prop) (late : L → E → Prop) (c c' : Config S K E M R L C) : Prop where
  kept : ∀ m, stored m c.db → stored m c'.db
  sessions : ∀ j, (c'.sessions j).Announces sys stored W late c'.db

omit [DecidableEq K] in
theorem announced_update {x : Session S K E M R L C}
    (hall : ∀ j, (c.sessions j).Announces sys stored W late c.db)
    (hc : c'.sessions = Function.update c.sessions i x)
    (hkept : ∀ m, stored m c.db → stored m c'.db) (hx : x.Announces sys stored W late c'.db) :
    Announced sys stored W late c c' := by
  refine ⟨hkept, fun j => ?_⟩
  rw [hc]
  by_cases hj : j = i
  · subst hj
    rw [Function.update_self]
    exact hx
  · rw [Function.update_of_ne hj]
    exact (hall j).mono hkept

theorem announced_advance {call : C} {l : L} {rest : Tx S K E M R} {work : S → S}
    {ok : R → Task S E R L} {err : E → Task S E R L} (ha : Announcing sys stored W late)
    (htracked : Tracked sys pr c) (hall : ∀ j, (c.sessions j).Announces sys stored W late c.db)
    (hi : c.sessions i = .busy call l rest work ok err)
    (hs : c.advance i call l rest work ok err = some c') : Announced sys stored W late c c' := by
  have hown := hall i
  rw [hi] at hown
  obtain ⟨hrest, hwrites, hfirm, hwork, hok, herr⟩ := hown
  cases rest with
  | ret r =>
    cases hs
    have hkept : ∀ m, stored m c.db → stored m (work c.db) := fun m h => hwork m c.db h
    refine announced_update hall rfl hkept ((hok r).mono ?_)
    rintro m (h | h)
    · exact hkept m h
    · exact h _ _ (commit_ends htracked hi)
  | raise e =>
    cases hs
    exact announced_update hall rfl (fun _ h => h) (herr e)
  | lock k p =>
    simp only [Config.advance] at hs
    split at hs
    · cases hs
      exact announced_update hall rfl (fun _ h => h) ⟨hrest, hwrites, hfirm, hwork, hok, herr⟩
    · cases hs
  | stmt f p =>
    cases hs
    have hlater : (p (work c.db)).Announces stored
        fun m => stored m c.db ∨ ∀ t, stored m ((f ∘ work) t) := by
      refine (hrest (work c.db)).mono ?_
      rintro m ((h | h) | h)
      · exact .inl h
      · exact .inr fun t => ha.keeps hwrites.1 (h t)
      · exact .inr fun t => h (work t)
    exact announced_update hall rfl (fun _ h => h) ⟨hlater, hwrites.2 _, hfirm _,
      fun m t h => ha.keeps hwrites.1 (hwork m t h), hok, herr⟩
  | peek p =>
    cases hs
    exact announced_update hall rfl (fun _ h => h) ⟨hrest _, hwrites _, hfirm _, hwork, hok, herr⟩
  | fresh p =>
    cases hs
    exact announced_update hall rfl (fun _ h => h) ⟨hrest _, hwrites _, hfirm _, hwork, hok, herr⟩
  | publish m p =>
    cases hs
    exact announced_update hall rfl (fun _ h => h) ⟨hrest.2, hwrites, Tx.Admits.firm hfirm, hwork, hok,
      herr⟩

theorem announced_step (ha : Announcing sys stored W late) (htracked : Tracked sys pr c)
    (hall : ∀ j, (c.sessions j).Announces sys stored W late c.db) (hs : sys.step c ev = some c') :
    Announced sys stored W late c c' := by
  cases ev with
  | outside v =>
    cases hs
    exact ⟨fun m => ha.outside v, fun j => (hall j).mono fun m => ha.outside v⟩
  | call i call =>
    simp only [System.step] at hs
    split at hs
    · cases hs
      exact announced_update hall rfl (fun _ h => h) (ha.body call _)
    · cases hs
  | act i =>
    simp only [System.step, System.act] at hs
    split at hs
    · cases hs
    · rename_i call task hi
      have hown := hall i
      rw [hi] at hown
      split at hs
      · cases hs
      · cases hs
      · cases hs
        exact announced_update hall rfl (fun _ h => h) (hown c.db)
      · rename_i l ok err
        cases hs
        exact announced_update hall rfl (fun _ h => h) ⟨hown.1.mono fun m => .inl, ha.writes l,
          ha.firm l, fun _ _ h => h, hown.2.1, hown.2.2⟩
    · rename_i hi
      exact announced_advance ha htracked hall hi hs
  | fault i =>
    simp only [System.step, System.strike] at hs
    have hown := hall i
    split at hs
    · cases hs
    · rename_i call task hi
      rw [hi] at hown
      split at hs
      · cases hs
      · cases hs
      · cases hs
        exact announced_update hall rfl (fun _ h => h) trivial
      · cases hs
        exact announced_update hall rfl (fun _ h => h) (hown.2.2 _)
    · rename_i hi
      rw [hi] at hown
      cases hs
      exact announced_update hall rfl (fun _ h => h) (hown.2.2.2.2.2 _)
  | crash i =>
    simp only [System.step] at hs
    split at hs
    · cases hs
    · cases hs
      exact announced_update hall rfl (fun _ h => h) trivial

/-- A row that an open transaction vouches for stays there, until the transaction is committed
or struck. -/
theorem vouches_step (ha : Announcing sys stored W late) (htracked : Tracked sys pr c)
    (hall : ∀ j, (c.sessions j).Announces sys stored W late c.db) (hs : sys.step c ev = some c')
    (h : (c.sessions i).Vouches stored late m) :
    (c'.sessions i).Vouches stored late m ∨ stored m c'.db ∨ ev.Strikes i := by
  by_cases hproc : ev.process = some i
  · have hown := hall i
    cases ev with
    | outside => cases hproc
    | fault => exact .inr (.inr (.inl (by cases hproc; rfl)))
    | crash => exact .inr (.inr (.inr (by cases hproc; rfl)))
    | call =>
      cases hproc
      simp only [System.step] at hs
      split at hs
      · rename_i hi
        rw [hi] at h
        exact h.elim
      · cases hs
    | act =>
      cases hproc
      simp only [System.step, System.act] at hs
      split at hs
      · cases hs
      · rename_i hi
        rw [hi] at h
        exact h.elim
      · rename_i call l rest work ok err hi
        rw [hi] at h hown
        obtain ⟨hwritten, hadmits⟩ := h
        cases rest with
        | ret r =>
          cases hs
          exact .inr (.inl (hwritten c.db))
        | raise e =>
          have hraises : c.raises (.act i : Event C V) = some (call, l, e) := by
            simp only [Config.raises, hi]
          obtain ⟨t, hx⟩ := raise_exec htracked hraises
          exact absurd hadmits (ha.never hx)
        | lock k p =>
          simp only [Config.advance] at hs
          split at hs
          · cases hs
            simp only [Config.place, Function.update_self]
            exact .inl ⟨hwritten, hadmits⟩
          · cases hs
        | stmt f p =>
          cases hs
          simp only [Config.place, Function.update_self]
          exact .inl ⟨fun t => ha.keeps hown.2.1.1 (hwritten t), hadmits _⟩
        | peek | fresh =>
          cases hs
          simp only [Config.place, Function.update_self]
          exact .inl ⟨hwritten, hadmits _⟩
        | publish =>
          cases hs
          simp only [Config.place, Function.update_self]
          exact .inl ⟨hwritten, hadmits.2⟩
  · rw [step_other hs hproc]
    exact .inl h

/-- A message is published when the row that it is about is stored, or vouched for. -/
theorem queue_step (hall : ∀ j, (c.sessions j).Announces sys stored W late c.db)
    (hs : sys.step c ev = some c') (h : m ∈ c'.world.queue) :
    m ∈ c.world.queue ∨ stored m c.db ∨ ∃ i, (c'.sessions i).Vouches stored late m := by
  cases ev with
  | outside =>
    cases hs
    exact .inl h
  | call | crash =>
    simp only [System.step] at hs
    split at hs
    all_goals cases hs
    exact .inl h
  | fault =>
    simp only [System.step, System.strike] at hs
    split at hs
    · cases hs
    · split at hs <;> cases hs <;> exact .inl h
    · cases hs
      exact .inl h
  | act i =>
    have hown := hall i
    simp only [System.step, System.act] at hs
    split at hs
    · cases hs
    · split at hs <;> cases hs <;> exact .inl h
    · rename_i call l rest work ok err hi
      rw [hi] at hown
      cases rest with
      | publish m' p =>
        cases hs
        rcases List.mem_append.mp h with h | h
        · exact .inl h
        · rw [List.mem_singleton.mp h]
          rcases hown.1.1 with hstored | hwritten
          · exact .inr (.inl hstored)
          · refine .inr (.inr ⟨i, ?_⟩)
            simp only [Config.place, Function.update_self]
            exact ⟨hwritten, hown.2.2.1⟩
      | lock k p =>
        simp only [Config.advance] at hs
        split at hs <;> cases hs
        exact .inl h
      | ret | raise | stmt | peek | fresh =>
        cases hs
        exact .inl h

/-- Every message that was published is about a committed row, or about one in a
transaction that is still open. -/
def Config.Backed (stored : M → S → Prop) (c : Config S K E M R L C) : Prop :=
  ∀ m ∈ c.world.queue, stored m c.db ∨ ∃ i, (c.sessions i).Holds stored m

/-- The same, and no such transaction is going to raise anything. -/
def Config.Vouched (stored : M → S → Prop) (late : L → E → Prop) (c : Config S K E M R L C) : Prop :=
  ∀ m ∈ c.world.queue, stored m c.db ∨ ∃ i, (c.sessions i).Vouches stored late m

omit [DecidableEq K] in
theorem Config.Vouched.backed (h : c.Vouched stored late) : c.Backed stored :=
  fun m hm => (h m hm).imp_right fun ⟨i, hi⟩ => ⟨i, hi.holds⟩

/-- The event strikes no process that has published in its open transaction, and none that
is still to send a message. -/
def Config.Spares (stored : M → S → Prop) (sends : L → M → Prop) (c : Config S K E M R L C)
    (ev : Event C V) : Prop :=
  ∀ i, ev.Strikes i → ∀ m, (m ∈ c.world.queue → ¬ (c.sessions i).Holds stored m) ∧
    ((c.sessions i).Owes sends m → m ∈ c.world.queue)

theorem vouched_step (ha : Announcing sys stored W late) (htracked : Tracked sys pr c)
    (hall : ∀ j, (c.sessions j).Announces sys stored W late c.db) (hs : sys.step c ev = some c')
    (hspares : c.Spares stored sends ev) (h : c.Vouched stored late) :
    c'.Vouched stored late := by
  have hkept := (announced_step ha htracked hall hs).kept
  intro m hm
  rcases queue_step hall hs hm with hold | hstored | hvouches
  · rcases h m hold with hstored | ⟨i, hi⟩
    · exact .inl (hkept m hstored)
    · rcases vouches_step ha htracked hall hs hi with hlater | hstored | hstrikes
      · exact .inr ⟨i, hlater⟩
      · exact .inl hstored
      · exact absurd hi.holds ((hspares i hstrikes m).1 hold)
  · exact .inl (hkept m hstored)
  · exact .inr hvouches

end Announcing

end Transactions
