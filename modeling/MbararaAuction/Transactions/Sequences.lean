import MbararaAuction.Transactions.Runs
import MbararaAuction.Transactions.Rules

namespace Transactions

section Bodies
variable {S K E M R α β : Type}

/-- Begun when the sequence stands at `n` or later, the body makes only writes that `W`
allows where the sequence stands by then. -/
def Tx.Numbered (W : Nat → (S → S) → Prop) : Nat → Tx S K E M α → Prop
  | _, ret _ | _, raise _ => True
  | n, lock _ rest | n, publish _ rest => rest.Numbered W n
  | n, stmt write rest => W n write ∧ ∀ s, (rest s).Numbered W n
  | n, peek rest => ∀ s, (rest s).Numbered W n
  | n, fresh rest => ∀ m, n ≤ m → (rest m).Numbered W (m + 1)

/-- Writes that may be combined, and that later numbers still allow. -/
structure Cumulative (W : Nat → (S → S) → Prop) : Prop where
  nothing : ∀ n, W n id
  comp : ∀ {n f g}, W n f → W n g → W n (g ∘ f)
  later : ∀ {n m f}, n ≤ m → W n f → W m f

section Rules
variable {W : Nat → (S → S) → Prop} {n : Nat} {p : Tx S K E M α} {f : α → Tx S K E M β}

theorem Tx.Numbered.bind (hp : p.Numbered W n) (hf : ∀ a m, n ≤ m → (f a).Numbered W m) :
    (p >>= f).Numbered W n := by
  change (p.bind f).Numbered W n
  induction p generalizing n with
  | ret a => exact hf a n (Nat.le_refl n)
  | raise e => trivial
  | lock k rest ih => exact ih hp hf
  | stmt write rest ih => exact ⟨hp.1, fun s => ih s (hp.2 s) hf⟩
  | peek rest ih => exact fun s => ih s (hp s) hf
  | fresh rest ih =>
    intro m hm
    apply ih m (hp m hm)
    intro a k hk
    exact hf a k (by omega)
  | publish m rest ih => exact ih hp hf

theorem numbered_query (hW : Cumulative W) (g : S → α) :
    (Tx.query g : Tx S K E M α).Numbered W n := ⟨hW.nothing n, fun _ => trivial⟩

theorem numbered_update {g : S → S} (hg : W n g) :
    (Tx.update g : Tx S K E M Unit).Numbered W n := ⟨hg, fun _ => trivial⟩

theorem numbered_draw {f : Nat → Tx S K E M β} (hf : ∀ m, n ≤ m → (f m).Numbered W (m + 1)) :
    (Tx.draw >>= f).Numbered W n := hf

theorem numbered_ofExcept (x : Except E α) : (Tx.ofExcept x : Tx S K E M α).Numbered W n := by
  cases x <;> trivial

theorem numbered_refuse (c : Prop) [Decidable c] (e : E) :
    (Tx.refuse c e : Tx S K E M Unit).Numbered W n := by
  unfold Tx.refuse
  split <;> trivial

theorem numbered_when {c : Prop} [Decidable c] {p : Tx S K E M Unit} (hp : p.Numbered W n) :
    (Tx.when c p).Numbered W n := by
  unfold Tx.when
  split
  · exact hp
  · trivial

end Rules

end Bodies

section Runs
variable {S K E M R L C V : Type} [DecidableEq K] {sys : System S K E M R L C V}
variable {W : Nat → (S → S) → Prop} {c c' : Config S K E M R L C} {ev : Event C V} {i : Nat}

/-- Whatever a process of such a transaction has written or will write, the numbers
drawn so far allow. -/
def Drafted (sys : System S K E M R L C V) (W : Nat → (S → S) → Prop) (c : Config S K E M R L C) :
    Prop :=
  ∀ i call l rest work ok err, c.sessions i = .busy call l rest work ok err →
    (sys.prog l).Numbered W 0 → ∃ n ≤ c.world.seq, rest.Numbered W n ∧ W n work

omit [DecidableEq K] in
/-- One session changes, and the sequence does not go back. -/
theorem Drafted.update {x : Session S K E M R L C} (h : Drafted sys W c)
    (hsessions : c'.sessions = Function.update c.sessions i x)
    (hseq : c.world.seq ≤ c'.world.seq)
    (hown : ∀ call l rest work ok err, x = .busy call l rest work ok err →
      (sys.prog l).Numbered W 0 → ∃ n ≤ c'.world.seq, rest.Numbered W n ∧ W n work) :
    Drafted sys W c' := by
  intro j call l rest work ok err hj hl
  rw [hsessions] at hj
  by_cases hji : j = i
  · rw [hji, Function.update_self] at hj
    exact hown call l rest work ok err hj hl
  · rw [Function.update_of_ne hji] at hj
    obtain ⟨n, hn, hrest⟩ := h j call l rest work ok err hj hl
    exact ⟨n, Nat.le_trans hn hseq, hrest⟩

omit [DecidableEq K] in
/-- A session that is not inside a transaction has nothing to write. -/
theorem Drafted.leave {x : Session S K E M R L C} (h : Drafted sys W c)
    (hx : x = .idle ∨ ∃ call t, x = .ready call t)
    (hsessions : c'.sessions = Function.update c.sessions i x)
    (hseq : c.world.seq ≤ c'.world.seq) : Drafted sys W c' := by
  apply h.update hsessions hseq
  intro call l rest work ok err hbusy
  rcases hx with rfl | ⟨_, _, rfl⟩
  · cases hbusy
  · cases hbusy

omit [DecidableEq K] in
/-- A session goes on with its transaction. -/
theorem Drafted.busy {call : C} {l : L} {rest : Tx S K E M R} {work : S → S}
    {ok : R → Task S E R L} {err : E → Task S E R L} (h : Drafted sys W c)
    (hsessions : c'.sessions = Function.update c.sessions i (.busy call l rest work ok err))
    (hseq : c.world.seq ≤ c'.world.seq)
    (hown : (sys.prog l).Numbered W 0 → ∃ n ≤ c'.world.seq, rest.Numbered W n ∧ W n work) :
    Drafted sys W c' := by
  apply h.update hsessions hseq
  intro call' l' rest' work' ok' err' hbusy hl
  cases hbusy
  exact hown hl

theorem drafted_advance (hW : Cumulative W) (h : Drafted sys W c) {call : C} {l : L}
    {rest : Tx S K E M R} {work : S → S} {ok : R → Task S E R L} {err : E → Task S E R L}
    (hi : c.sessions i = .busy call l rest work ok err)
    (hs : c.advance i call l rest work ok err = some c') :
    Drafted sys W c' ∧ c.world.seq ≤ c'.world.seq := by
  have hdraft := h i call l rest work ok err hi
  have hrefl := Nat.le_refl c.world.seq
  cases rest with
  | ret r =>
    cases hs
    exact ⟨h.leave (.inr ⟨_, _, rfl⟩) rfl hrefl, hrefl⟩
  | raise e =>
    cases hs
    exact ⟨h.leave (.inr ⟨_, _, rfl⟩) rfl hrefl, hrefl⟩
  | lock k p =>
    simp only [Config.advance] at hs
    split at hs
    · cases hs
      exact ⟨h.busy rfl hrefl hdraft, hrefl⟩
    · cases hs
  | stmt f p =>
    cases hs
    refine ⟨h.busy rfl hrefl ?_, hrefl⟩
    intro hl
    obtain ⟨n, hn, ⟨hf, hp⟩, hwork⟩ := hdraft hl
    exact ⟨n, hn, hp _, hW.comp hwork hf⟩
  | peek p =>
    cases hs
    refine ⟨h.busy rfl hrefl ?_, hrefl⟩
    intro hl
    obtain ⟨n, hn, hp, hwork⟩ := hdraft hl
    exact ⟨n, hn, hp _, hwork⟩
  | fresh p =>
    cases hs
    refine ⟨h.busy rfl (Nat.le_succ _) ?_, Nat.le_succ _⟩
    intro hl
    obtain ⟨n, hn, hp, hwork⟩ := hdraft hl
    exact ⟨c.world.seq + 1, Nat.le_refl _, hp _ hn, hW.later (Nat.le_succ_of_le hn) hwork⟩
  | publish m p =>
    cases hs
    exact ⟨h.busy rfl hrefl hdraft, hrefl⟩

theorem drafted_step (hW : Cumulative W) (h : Drafted sys W c) (hs : sys.step c ev = some c') :
    Drafted sys W c' ∧ c.world.seq ≤ c'.world.seq := by
  have hrefl := Nat.le_refl c.world.seq
  cases ev with
  | outside v =>
    cases hs
    exact ⟨h, hrefl⟩
  | call i call =>
    simp only [System.step] at hs
    split at hs
    · cases hs
      exact ⟨h.leave (.inr ⟨_, _, rfl⟩) rfl hrefl, hrefl⟩
    · cases hs
  | act i =>
    simp only [System.step, System.act] at hs
    split at hs
    · cases hs
    · split at hs
      · cases hs
      · cases hs
      · cases hs
        exact ⟨h.leave (.inr ⟨_, _, rfl⟩) rfl hrefl, hrefl⟩
      · cases hs
        refine ⟨h.busy rfl hrefl ?_, hrefl⟩
        intro hl
        exact ⟨0, Nat.zero_le _, hl, hW.nothing 0⟩
    · next hi => exact drafted_advance hW h hi hs
  | fault i =>
    simp only [System.step, System.strike] at hs
    split at hs
    · cases hs
    · split at hs
      · cases hs
      · cases hs
      · cases hs
        exact ⟨h.leave (.inr ⟨_, _, rfl⟩) rfl hrefl, hrefl⟩
      · cases hs
        exact ⟨h.leave (.inr ⟨_, _, rfl⟩) rfl hrefl, hrefl⟩
    · cases hs
      exact ⟨h.leave (.inr ⟨_, _, rfl⟩) rfl hrefl, hrefl⟩
  | crash i =>
    simp only [System.step] at hs
    split at hs
    · cases hs
    · cases hs
      exact ⟨h.leave (.inl rfl) rfl hrefl, hrefl⟩

theorem Run.drafted {db : S} {before : List (Config S K E M R L C × Event C V)}
    (hrun : Run sys.step (Config.initial db) before c) (hW : Cumulative W) : Drafted sys W c :=
  hrun.invariant (fun _ _ _ _ _ _ _ hi => by cases hi)
    (fun _ _ _ h hs => (drafted_step hW h hs).1)

/-- What such a transaction commits, the numbers drawn so far allow. -/
theorem Drafted.commit (h : Drafted sys W c) (hW : Cumulative W) {call : C} {l : L}
    (hl : (sys.prog l).Numbered W 0) (hs : sys.step c ev = some c')
    (hc : c.commits ev = some (call, l)) : ∃ f, W c.world.seq f ∧ c'.world.db = f c.world.db := by
  obtain ⟨i, r, work, ok, err, rfl, hi⟩ := commits_some hc
  simp only [System.step, System.act, hi, Config.advance, Option.some.injEq] at hs
  subst hs
  obtain ⟨n, hn, _, hwork⟩ := h i call l _ work ok err hi hl
  exact ⟨work, hW.later hn hwork, rfl⟩

end Runs

end Transactions
