import Mathlib.Logic.Relation
import MbararaAuction.Transactions.Ordered
import MbararaAuction.Transactions.Rules

namespace Transactions

section Sessions
variable {S K E M R L C : Type}

/-- There is something left for this process to do. -/
def Session.unfinished : Session S K E M R L C → Bool
  | idle | ready _ (.done _) | ready _ (.fail _) => false
  | ready _ (.look _) | ready _ (.tx _ _ _) | busy _ _ _ _ _ _ => true

def Session.isBusy : Session S K E M R L C → Bool
  | busy _ _ _ _ _ _ => true
  | idle | ready _ _ => false

/-- Process `i` is at a lock that process `j` holds. -/
def Config.WaitsOn (c : Config S K E M R L C) (i j : Nat) : Prop :=
  i ≠ j ∧ ∃ call l k p work ok err, c.sessions i = .busy call l (.lock k p) work ok err ∧
    c.locks k = some j

end Sessions

section Ordered
variable {S K E M R L C V : Type} {sys : System S K E M R L C V} {o : LockOrder K S} {Q : E → Prop}
variable {c c' : Config S K E M R L C} {i j : Nat} {ev : Event C V}
variable {l : L} {rest : Tx S K E M R} {work : S → S} {call : C}
variable {ok : R → Task S E R L} {err : E → Task S E R L}

/-- The transaction of process `i`, with `rest` still to run, stands at `x`. -/
structure Stands (o : LockOrder K S) (Q : E → Prop) (c : Config S K E M R L C) (i : Nat)
    (rest : Tx S K E M R) (work : S → S) (x : Stand K) : Prop where
  orderly : rest.Orderly o Q x (fun _ _ => True)
  held : ∀ k, c.locks k = some i ↔ k ∈ x.held
  unused : ∀ n ∈ x.drawn, ¬ o.Used n c.world.db
  blank : ∀ n ∈ x.blank, n ∈ x.drawn ∧ ∀ s, o.Used n (work s) → o.Used n s
  fits : o.Fits x.drawn work
  checked : ∀ k ∈ x.held, ∀ n ∈ o.number k,
    n ∈ x.drawn ∨ o.Used n c.world.db ∨ o.Checked n rest

/-- Every transaction in progress stands somewhere, and no number was drawn twice. -/
structure Ordered (o : LockOrder K S) (Q : E → Prop) (c : Config S K E M R L C)
    (at_ : Nat → Stand K) : Prop where
  stands : ∀ i call l rest work ok err, c.sessions i = .busy call l rest work ok err →
    Stands o Q c i rest work (at_ i)
  once : ∀ i j, i ≠ j → ∀ n ∈ (at_ i).drawn, n ∉ (at_ j).drawn
  drawn : ∀ i, ∀ n ∈ (at_ i).drawn, n < c.world.seq
  owned : ∀ k i, c.locks k = some i → (c.sessions i).isBusy = true
  used : ∀ n, o.Used n c.world.db → n < c.world.seq

/-- What the system itself has to see to. -/
structure OrderedSystem (sys : System S K E M R L C V) (o : LockOrder K S) (Q : E → Prop) : Prop where
  orderly : ∀ l, (sys.prog l).Orderly o Q .start (fun _ _ => True)
  outside : ∀ v n s, o.Used n (sys.outside v s) ↔ o.Used n s

theorem ordered_initial {db : S} (h : ∀ n, ¬ o.Used n db) :
    Ordered o Q (Config.initial db : Config S K E M R L C) (fun _ => .start) where
  stands := by
    intro i call l rest work ok err hi
    cases hi
  once := fun _ _ _ n hn => absurd hn List.not_mem_nil
  drawn := fun _ n hn => absurd hn List.not_mem_nil
  owned := by
    intro k i hk
    cases hk
  used := fun n hn => absurd hn (h n)

/-- Others take locks, draw numbers and commit. -/
theorem Stands.frame {x : Stand K} (h : Stands o Q c i rest work x)
    (hlocks : ∀ k, c'.locks k = some i ↔ c.locks k = some i)
    (hkeeps : ∀ n, o.Used n c.world.db → o.Used n c'.world.db)
    (hadds : ∀ n, o.Used n c'.world.db → o.Used n c.world.db ∨ n ∉ x.drawn) :
    Stands o Q c' i rest work x where
  orderly := h.orderly
  held := fun k => (hlocks k).trans (h.held k)
  unused := by
    intro n hn hused
    rcases hadds n hused with hold | hnot
    · exact h.unused n hn hold
    · exact hnot hn
  blank := h.blank
  fits := h.fits
  checked := by
    intro k hk n hn
    rcases h.checked k hk n hn with hown | hused | hcheck
    · exact .inl hown
    · exact .inr (.inl (hkeeps n hused))
    · exact .inr (.inr hcheck)

/-- Process `i` makes a step: its session becomes `y`, and it stands at `x` from then on. -/
theorem Ordered.update {at_ : Nat → Stand K} {y : Session S K E M R L C} {x : Stand K}
    (h : Ordered o Q c at_) (hsessions : c'.sessions = Function.update c.sessions i y)
    (hseq : c.world.seq ≤ c'.world.seq)
    (hlocks : ∀ j, j ≠ i → ∀ k, c'.locks k = some j ↔ c.locks k = some j)
    (hkeeps : ∀ n, o.Used n c.world.db → o.Used n c'.world.db)
    (hadds : ∀ n, o.Used n c'.world.db → o.Used n c.world.db ∨ n ∈ (at_ i).drawn)
    (hdrawn : ∀ n ∈ x.drawn, n ∈ (at_ i).drawn ∨ (c.world.seq ≤ n ∧ n < c'.world.seq))
    (hbusy : ∀ k, c'.locks k = some i → y.isBusy = true)
    (hown : ∀ call l rest work ok err, y = .busy call l rest work ok err →
      Stands o Q c' i rest work x) : Ordered o Q c' (Function.update at_ i x) where
  stands := by
    intro j call l rest work ok err hj
    rw [hsessions] at hj
    by_cases hji : j = i
    · subst hji
      rw [Function.update_self] at hj ⊢
      exact hown _ _ _ _ _ _ hj
    · rw [Function.update_of_ne hji] at hj ⊢
      refine (h.stands j _ _ _ _ _ _ hj).frame (hlocks j hji) hkeeps ?_
      intro n hn
      rcases hadds n hn with hold | hmine
      · exact .inl hold
      · exact .inr (h.once i j (Ne.symm hji) n hmine)
  once := by
    -- A number that is new here was not drawn before.
    have hnew : ∀ j, j ≠ i → ∀ n ∈ x.drawn, n ∉ (at_ j).drawn := by
      intro j hji n hn hj
      rcases hdrawn n hn with hold | ⟨hlate, _⟩
      · exact h.once i j (Ne.symm hji) n hold hj
      · have hlow := h.drawn j n hj
        omega
    intro j m hjm n hn
    by_cases hji : j = i
    · subst hji
      rw [Function.update_self] at hn
      rw [Function.update_of_ne (Ne.symm hjm)]
      exact hnew m (Ne.symm hjm) n hn
    · rw [Function.update_of_ne hji] at hn
      by_cases hmi : m = i
      · subst hmi
        rw [Function.update_self]
        exact fun hx => hnew j hji n hx hn
      · rw [Function.update_of_ne hmi]
        exact h.once j m hjm n hn
  drawn := by
    intro j n hn
    by_cases hji : j = i
    · subst hji
      rw [Function.update_self] at hn
      rcases hdrawn n hn with hold | ⟨_, hlow⟩
      · exact Nat.lt_of_lt_of_le (h.drawn j n hold) hseq
      · exact hlow
    · rw [Function.update_of_ne hji] at hn
      exact Nat.lt_of_lt_of_le (h.drawn j n hn) hseq
  owned := by
    intro k j hk
    rw [hsessions]
    by_cases hji : j = i
    · subst hji
      rw [Function.update_self]
      exact hbusy k hk
    · rw [Function.update_of_ne hji]
      exact h.owned k j ((hlocks j hji k).mp hk)
  used := by
    intro n hn
    rcases hadds n hn with hold | hmine
    · exact Nat.lt_of_lt_of_le (h.used n hold) hseq
    · exact Nat.lt_of_lt_of_le (h.drawn i n hmine) hseq

theorem release_iff (hji : j ≠ i) (k : K) : (c.release i).locks k = some j ↔ c.locks k = some j := by
  simp only [Config.release]
  split
  · next hk =>
    rw [hk]
    simp [Ne.symm hji]
  · exact Iff.rfl

theorem release_none (k : K) : (c.release i).locks k ≠ some i := by
  simp only [Config.release]
  split
  · exact fun hn => by cases hn
  · next hk => exact hk

/-- The transaction of process `i` ends without a commit. -/
theorem Ordered.leave {at_ : Nat → Stand K} {y : Session S K E M R L C} (h : Ordered o Q c at_)
    (hy : y.isBusy = false) (hbusy : ∀ k, c'.locks k ≠ some i)
    (hsessions : c'.sessions = Function.update c.sessions i y) (hworld : c'.world = c.world)
    (hlocks : ∀ j, j ≠ i → ∀ k, c'.locks k = some j ↔ c.locks k = some j) :
    ∃ at_, Ordered o Q c' at_ := by
  refine ⟨_, h.update (x := .start) hsessions ?_ hlocks ?_ ?_ ?_ ?_ ?_⟩
  · rw [hworld]
  · rw [hworld]
    exact fun _ hn => hn
  · rw [hworld]
    exact fun _ hn => .inl hn
  · exact fun n hn => absurd hn List.not_mem_nil
  · exact fun k hk => absurd hk (hbusy k)
  · intro call l rest work ok err he
    rw [he] at hy
    cases hy

/-- A process that is not in a transaction goes on. -/
theorem Ordered.place {at_ : Nat → Stand K} {y : Session S K E M R L C} (h : Ordered o Q c at_)
    (hy : y.isBusy = false) (hi : (c.sessions i).isBusy = false) :
    ∃ at_, Ordered o Q (c.place i y) at_ := by
  refine h.leave (i := i) hy ?_ rfl rfl (fun _ _ _ => Iff.rfl)
  intro k hk
  have hb := h.owned k i hk
  rw [hi] at hb
  cases hb

variable [DecidableEq K]

theorem take_iff {k : K} (hji : j ≠ i) (hfree : c.locks k = none ∨ c.locks k = some i) (k' : K) :
    (c.take i k).locks k' = some j ↔ c.locks k' = some j := by
  refine ⟨fun hk => ?_, fun hk => take_other hji hfree hk⟩
  simp only [Config.take] at hk
  by_cases he : k' = k
  · subst he
    rw [Function.update_self] at hk
    exact absurd (Option.some.inj hk).symm hji
  · rwa [Function.update_of_ne he] at hk

/-- A statement of the transaction of process `i`. -/
theorem ordered_advance {at_ : Nat → Stand K} (h : Ordered o Q c at_)
    (hi : c.sessions i = .busy call l rest work ok err)
    (hs : c.advance i call l rest work ok err = some c') : ∃ at_, Ordered o Q c' at_ := by
  have hx := h.stands i _ _ _ _ _ _ hi
  have hrefl : ∀ n, o.Used n c.world.db → o.Used n c.world.db ∨ n ∈ (at_ i).drawn :=
    fun _ hn => .inl hn
  cases rest with
  | ret r =>
    cases hs
    refine ⟨_, h.update (x := .start) rfl (Nat.le_refl _) ?_ ?_ ?_ ?_ ?_ ?_⟩
    · exact fun j hji k => release_iff (c := c.write (work c.db)) hji k
    · exact fun n hn => hx.fits.keeps n _ hn
    · exact fun n hn => hx.fits.adds n _ hn
    · exact fun n hn => absurd hn List.not_mem_nil
    · exact fun k hk => absurd hk (release_none (c := c.write (work c.db)) k)
    · intro _ _ _ _ _ _ he
      cases he
  | raise e =>
    cases hs
    exact h.leave (y := .ready call (err e)) rfl (fun k => release_none (c := c) k) rfl rfl
      fun j hji k => release_iff hji k
  | lock k p =>
    simp only [Config.advance] at hs
    split at hs
    · rename_i hfree
      cases hs
      obtain ⟨hmay, hp⟩ := hx.orderly
      refine ⟨_, h.update (x := (at_ i).lock k) rfl (Nat.le_refl _) ?_ (fun _ hn => hn) hrefl ?_ ?_ ?_⟩
      · exact fun j hji k' => take_iff hji hfree k'
      · exact fun n hn => .inl hn
      · exact fun _ _ => rfl
      · intro _ _ _ _ _ _ he
        cases he
        refine ⟨hp, ?_, hx.unused, hx.blank, hx.fits, ?_⟩
        · intro k'
          simp only [Config.place, Config.take, Stand.lock, List.mem_cons]
          by_cases he : k' = k
          · subst he
            rw [Function.update_self]
            exact ⟨fun _ => .inl rfl, fun _ => rfl⟩
          · rw [Function.update_of_ne he, hx.held k']
            exact ⟨.inr, fun hm => hm.resolve_left he⟩
        · intro k' hk' n hn
          have hold : k' ∈ (at_ i).held →
              n ∈ (at_ i).drawn ∨ o.Used n c.world.db ∨ o.Checked n p := by
            intro hm
            rcases hx.checked k' hm n hn with hown | hused | hcheck
            · exact .inl hown
            · exact .inr (.inl hused)
            · cases hcheck
          rcases List.mem_cons.mp hk' with he | hk'
          · subst he
            rcases hmay with hheld | ⟨m, hm, hnumber⟩ | ⟨_, hcheck⟩
            · exact hold hheld
            · rw [hnumber] at hn
              cases hn
              exact .inl hm
            · exact .inr (.inr (hcheck n hn))
          · exact hold hk'
    · cases hs
  | stmt w p =>
    cases hs
    obtain ⟨hfits, blank, hpasses, hp⟩ := hx.orderly
    have hblank : ∀ n ∈ (at_ i).blank, ¬ o.Used n (work c.world.db) := by
      intro n hn hused
      obtain ⟨hmine, hquiet⟩ := hx.blank n hn
      exact hx.unused n hmine (hquiet _ hused)
    refine ⟨_, h.update (x := (at_ i).write blank) rfl (Nat.le_refl _) (fun _ _ _ => Iff.rfl)
      (fun _ hn => hn) hrefl (fun n hn => .inl hn) (fun _ _ => rfl) ?_⟩
    intro _ _ _ _ _ _ he
    cases he
    refine ⟨hp _ hblank, hx.held, hx.unused, ?_, hx.fits.comp hfits, ?_⟩
    · intro n hn
      rcases hpasses with hnone | ⟨hsame, hquiet⟩
      · simp only [Stand.write, hnone] at hn
        cases hn
      · simp only [Stand.write, hsame] at hn
        obtain ⟨hmine, hkept⟩ := hx.blank n hn
        exact ⟨hmine, fun s hused => hkept s (hquiet n _ hused)⟩
    · intro k hk n hn
      rcases hx.checked k hk n hn with hown | hused | hcheck
      · exact .inl hown
      · exact .inr (.inl hused)
      · -- Either the row is there, or the body has found out that it is not.
        by_cases hused : o.Used n (work c.world.db)
        · rcases hx.fits.adds n _ hused with hthere | hmine
          · exact .inr (.inl hthere)
          · exact .inl hmine
        · obtain ⟨e, he⟩ := hcheck _ hused
          refine .inr (.inr ?_)
          change o.Checked n (p (work c.world.db))
          rw [he]
          trivial
  | peek p =>
    cases hs
    refine ⟨_, h.update (x := at_ i) rfl (Nat.le_refl _) (fun _ _ _ => Iff.rfl)
      (fun _ hn => hn) hrefl (fun n hn => .inl hn) (fun _ _ => rfl) ?_⟩
    intro _ _ _ _ _ _ he
    cases he
    refine ⟨hx.orderly _, hx.held, hx.unused, hx.blank, hx.fits, ?_⟩
    intro k hk n hn
    rcases hx.checked k hk n hn with hown | hused | hcheck
    · exact .inl hown
    · exact .inr (.inl hused)
    · cases hcheck
  | fresh p =>
    cases hs
    have hlate : c.world.seq ∉ (at_ i).drawn := fun hn => Nat.lt_irrefl _ (h.drawn i _ hn)
    have hunused : ¬ o.Used c.world.seq c.world.db := fun hn => Nat.lt_irrefl _ (h.used _ hn)
    refine ⟨_, h.update (x := (at_ i).draw c.world.seq) rfl (Nat.le_succ _) (fun _ _ _ => Iff.rfl)
      (fun _ hn => hn) hrefl ?_ (fun _ _ => rfl) ?_⟩
    · intro n hn
      rcases List.mem_cons.mp hn with he | hn
      · exact .inr (by simp only [Config.place]; omega)
      · exact .inl hn
    intro _ _ _ _ _ _ he
    cases he
    refine ⟨hx.orderly _, hx.held, ?_, ?_, hx.fits.mono (List.subset_cons_self _ _), ?_⟩
    · intro n hn
      rcases List.mem_cons.mp hn with he | hn
      · subst he
        exact hunused
      · exact hx.unused n hn
    · intro n hn
      cases hn
      refine ⟨List.mem_cons_self .., fun s hused => ?_⟩
      exact (hx.fits.adds _ s hused).resolve_right hlate
    · intro k hk n hn
      rcases hx.checked k hk n hn with hown | hused | hcheck
      · exact .inl (List.mem_cons_of_mem _ hown)
      · exact .inr (.inl hused)
      · cases hcheck
  | publish m p =>
    cases hs
    refine ⟨_, h.update (x := at_ i) rfl (Nat.le_refl _) (fun _ _ _ => Iff.rfl)
      (fun _ hn => hn) hrefl (fun n hn => .inl hn) (fun _ _ => rfl) ?_⟩
    intro _ _ _ _ _ _ he
    cases he
    refine ⟨hx.orderly, hx.held, hx.unused, hx.blank, hx.fits, ?_⟩
    intro k hk n hn
    rcases hx.checked k hk n hn with hown | hused | hcheck
    · exact .inl hown
    · exact .inr (.inl hused)
    · cases hcheck

theorem ordered_step (hsys : OrderedSystem sys o Q) {at_ : Nat → Stand K} (h : Ordered o Q c at_)
    (hs : sys.step c ev = some c') : ∃ at_, Ordered o Q c' at_ := by
  cases ev with
  | outside v =>
    cases hs
    refine ⟨at_, ?_, h.once, h.drawn, h.owned, fun n hn => h.used n ((hsys.outside v n _).mp hn)⟩
    intro i call l rest work ok err hi
    refine (h.stands i _ _ _ _ _ _ hi).frame (fun _ => Iff.rfl) ?_ ?_
    · exact fun n hn => (hsys.outside v n _).mpr hn
    · exact fun n hn => .inl ((hsys.outside v n _).mp hn)
  | call i call =>
    simp only [System.step] at hs
    split at hs
    · next hi =>
      cases hs
      exact h.place rfl (by rw [hi]; rfl)
    · cases hs
  | act i =>
    simp only [System.step, System.act] at hs
    split at hs
    · cases hs
    · next hi =>
      have hfree : (c.sessions i).isBusy = false := by
        rw [hi]
        rfl
      split at hs
      · cases hs
      · cases hs
      · cases hs
        exact h.place rfl hfree
      · cases hs
        -- A transaction begins: nothing is drawn and nothing is held.
        refine ⟨_, h.update (x := .start) rfl (Nat.le_refl _) (fun _ _ _ => Iff.rfl)
          (fun _ hn => hn) (fun _ hn => .inl hn) ?_ (fun _ _ => rfl) ?_⟩
        · exact fun n hn => absurd hn List.not_mem_nil
        intro _ _ _ _ _ _ he
        cases he
        refine ⟨hsys.orderly _, ?_, ?_, ?_, .id, ?_⟩
        · intro k
          refine ⟨fun hk => ?_, fun hk => absurd hk List.not_mem_nil⟩
          have hb := h.owned k i hk
          rw [hfree] at hb
          cases hb
        · exact fun n hn => absurd hn List.not_mem_nil
        · exact fun n hn => by cases hn
        · exact fun k hk => absurd hk List.not_mem_nil
    · next hi => exact ordered_advance h hi hs
  | fault i =>
    simp only [System.step, System.strike] at hs
    split at hs
    · cases hs
    · next hi =>
      have hfree : (c.sessions i).isBusy = false := by
        rw [hi]
        rfl
      split at hs
      · cases hs
      · cases hs
      · cases hs
        exact h.place rfl hfree
      · cases hs
        exact h.place rfl hfree
    · next call _ _ _ _ err _ =>
      cases hs
      exact h.leave (y := .ready call (err sys.fault)) rfl (fun k => release_none (c := c) k) rfl rfl
        fun j hji k => release_iff hji k
  | crash i =>
    simp only [System.step] at hs
    split at hs
    · cases hs
    · cases hs
      exact h.leave (y := .idle) rfl (fun k => release_none (c := c) k) rfl rfl
        fun j hji k => release_iff hji k

/-- Wherever no row has a number yet, every run is in order. -/
theorem Run.ordered {db : S} {before : List (Config S K E M R L C × Event C V)}
    (hsys : OrderedSystem sys o Q) (hdb : ∀ n, ¬ o.Used n db)
    (hrun : Run sys.step (Config.initial db) before c) : ∃ at_, Ordered o Q c at_ := by
  refine hrun.invariant (I := fun c => ∃ at_, Ordered o Q c at_) ⟨_, ordered_initial hdb⟩ ?_
  intro c ev c' h hs
  obtain ⟨at_, h⟩ := h
  exact ordered_step hsys h hs

omit [DecidableEq K] in
/-- No transaction raises what `Q` does not allow. -/
theorem Ordered.raises {at_ : Nat → Stand K} {e : E} (h : Ordered o Q c at_)
    (hc : c.raises ev = some (call, l, e)) : Q e := by
  obtain ⟨i, work, ok, err, _, hi⟩ := raises_some hc
  exact (h.stands i _ _ _ _ _ _ hi).orderly

variable (sys) in
/-- A process with something to do does it, or is at a lock. -/
theorem moves_or_waits (hi : (c.sessions i).unfinished = true) :
    (sys.act c i).isSome = true ∨ ∃ call l k p work ok err j,
      c.sessions i = .busy call l (.lock k p) work ok err ∧ c.locks k = some j ∧ i ≠ j := by
  unfold System.act
  cases hs : c.sessions i with
  | idle =>
    rw [hs] at hi
    cases hi
  | ready call t =>
    rw [hs] at hi
    cases t with
    | done | fail => cases hi
    | look | tx => exact .inl rfl
  | busy call l rest work ok err =>
    cases rest with
    | ret | raise | stmt | peek | fresh | publish => exact .inl rfl
    | lock k p =>
      cases hk : c.locks k with
      | none =>
        left
        simp only [Config.advance, hk, true_or, ↓reduceIte, Option.isSome_some]
      | some j =>
        by_cases hij : i = j
        · left
          subst hij
          simp only [Config.advance, hk, or_true, ↓reduceIte, Option.isSome_some]
        · exact .inr ⟨call, l, k, p, work, ok, err, j, rfl, hk, hij⟩

variable (sys) in
/-- Where a waiting process waits: at a lock whose holder is about to raise, or at one that
is above everything it holds. -/
theorem Ordered.wait {at_ : Nat → Stand K} {k : K} {p : Tx S K E M R} (h : Ordered o Q c at_)
    (hi : c.sessions i = .busy call l (.lock k p) work ok err) (hk : c.locks k = some j)
    (hij : i ≠ j) : (sys.act c j).isSome = true ∨
      ∀ k', c.locks k' = some i → o.level k' < o.level k := by
  have hx := h.stands i _ _ _ _ _ _ hi
  rcases hx.orderly.1 with hheld | ⟨n, hn, hnumber⟩ | ⟨habove, _⟩
  · have hmine := (hx.held k).mpr hheld
    rw [hk] at hmine
    exact absurd (Option.some.inj hmine).symm hij
  · -- The row is new, so its holder named a row that is not there.
    left
    have hbusy := h.owned k j hk
    cases hj : c.sessions j with
    | idle | ready => rw [hj] at hbusy; cases hbusy
    | busy call' l' rest' work' ok' err' =>
      have hy := h.stands j _ _ _ _ _ _ hj
      rcases hy.checked k ((hy.held k).mp hk) n hnumber with hown | hused | hcheck
      · exact absurd hown (h.once i j hij n hn)
      · exact absurd hused (hx.unused n hn)
      · unfold System.act
        rw [hj]
        cases rest' with
        | raise | stmt => rfl
        | ret | lock | peek | fresh | publish => cases hcheck
  · right
    intro k' hk'
    exact habove k' ((hx.held k').mp hk')

variable (sys) in
/-- Whoever waits, waits in the end for a process that can move. -/
theorem Ordered.leads_to_mover {at_ : Nat → Stand K} (h : Ordered o Q c at_)
    (hi : (c.sessions i).unfinished = true) :
    ∃ j, Relation.ReflTransGen c.WaitsOn i j ∧ (sys.act c j).isSome = true := by
  rcases moves_or_waits sys hi with hmoves | ⟨call, l, k, p, work, ok, err, j, hs, hk, hij⟩
  · exact ⟨i, .refl, hmoves⟩
  -- By induction on how far the level of the lock is from the top.
  obtain ⟨m, hm⟩ : ∃ m, o.top - o.level k ≤ m := ⟨_, Nat.le_refl _⟩
  clear hi
  induction m generalizing i call l k p work ok err j with
  | zero =>
    have htop := o.bounded k
    omega
  | succ m ih =>
    have hstep : c.WaitsOn i j := ⟨hij, call, l, k, p, work, ok, err, hs, hk⟩
    have hbusy : (c.sessions j).unfinished = true := by
      have hb := h.owned k j hk
      cases hj : c.sessions j with
      | idle | ready => rw [hj] at hb; cases hb
      | busy => rfl
    rcases moves_or_waits sys hbusy with
      hmoves | ⟨call', l', k', p', work', ok', err', j', hs', hk', hij'⟩
    · exact ⟨j, .single hstep, hmoves⟩
    rcases h.wait sys hs' hk' hij' with hmoves | habove
    · have hnext : c.WaitsOn j j' := ⟨hij', call', l', k', p', work', ok', err', hs', hk'⟩
      exact ⟨j', .tail (.single hstep) hnext, hmoves⟩
    · have hlevel := habove k hk
      have htop := o.bounded k'
      obtain ⟨x, hpath, hmoves⟩ := ih call' l' k' p' work' ok' err' j' hs' hk' hij' (by omega)
      exact ⟨x, .head hstep hpath, hmoves⟩

omit [DecidableEq K] in
/-- A process waits for one other. -/
theorem waitsOn_unique {j' : Nat} (h : c.WaitsOn i j) (h' : c.WaitsOn i j') : j = j' := by
  obtain ⟨_, call, l, k, p, work, ok, err, hs, hk⟩ := h
  obtain ⟨_, call', l', k', p', work', ok', err', hs', hk'⟩ := h'
  rw [hs] at hs'
  cases hs'
  rw [hk] at hk'
  exact Option.some.inj hk'

theorem waitsOn_stuck (h : c.WaitsOn i j) : sys.act c i = none := by
  obtain ⟨hij, call, l, k, p, work, ok, err, hs, hk⟩ := h
  have hne : ¬ (c.locks k = none ∨ c.locks k = some i) := by
    rw [hk]
    simp [Ne.symm hij]
  simp only [System.act, hs, Config.advance, if_neg hne]

omit [DecidableEq K] in
/-- Whoever waits in a circle, waits for others in the circle. -/
theorem circle_closed (h : Relation.TransGen c.WaitsOn i i) (hpath : Relation.ReflTransGen c.WaitsOn i j) :
    Relation.TransGen c.WaitsOn j j := by
  induction hpath with
  | refl => exact h
  | tail _ hstep ih =>
    obtain ⟨x, hfirst, hback⟩ := Relation.TransGen.head'_iff.mp ih
    rw [waitsOn_unique hfirst hstep] at hback
    exact Relation.TransGen.tail' hback hstep

/-- Nobody waits for itself through others. -/
theorem Ordered.no_circle {at_ : Nat → Stand K} (h : Ordered o Q c at_)
    (sys : System S K E M R L C V) : ¬ Relation.TransGen c.WaitsOn i i := by
  intro hcircle
  obtain ⟨x, ⟨_, call, l, k, p, work, ok, err, hs, _⟩, _⟩ := Relation.TransGen.head'_iff.mp hcircle
  obtain ⟨j, hpath, hmoves⟩ := h.leads_to_mover sys (i := i) (by rw [hs]; rfl)
  obtain ⟨y, hwaits, _⟩ := Relation.TransGen.head'_iff.mp (circle_closed hcircle hpath)
  rw [waitsOn_stuck hwaits] at hmoves
  cases hmoves

omit [DecidableEq K] in
/-- Where everybody is at the end, nothing is locked. -/
theorem Ordered.unlocked {at_ : Nat → Stand K} (h : Ordered o Q c at_)
    (hends : ∀ i, (c.sessions i).unfinished = false) (k : K) : c.locks k = none := by
  cases hk : c.locks k with
  | none => rfl
  | some i =>
    have hbusy := h.owned k i hk
    have hend := hends i
    cases hi : c.sessions i with
    | idle | ready => rw [hi] at hbusy; cases hbusy
    | busy => rw [hi] at hend; cases hend

end Ordered

end Transactions
