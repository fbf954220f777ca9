import MbararaAuction.Transactions.Program

namespace Transactions

/-- The order in which locks are taken, and the numbers that rows are known by. `number` is
the number inside the key of a row that has one; `Used` says that some row has it. -/
structure LockOrder (K S : Type) where
  level : K → Nat
  top : Nat
  bounded : ∀ k, level k < top
  number : K → Option Nat
  Used : Nat → S → Prop

/-- What a transaction has drawn and locked. `blank` is a number that it drew and that it
has put in no row yet. -/
structure Stand (K : Type) where
  drawn : List Nat
  blank : Option Nat
  held : List K

namespace Stand
variable {K : Type}

/-- Where every transaction begins. -/
def start : Stand K := ⟨[], none, []⟩

def lock (k : K) (x : Stand K) : Stand K := { x with held := k :: x.held }

def draw (n : Nat) (x : Stand K) : Stand K := ⟨n :: x.drawn, some n, x.held⟩

def write (blank : Option Nat) (x : Stand K) : Stand K := { x with blank := blank }

end Stand

section Bodies
variable {S K E M α β : Type} (o : LockOrder K S)

/-- The write forgets no number, and puts none in a row but those drawn. -/
structure LockOrder.Fits (drawn : List Nat) (w : S → S) : Prop where
  keeps : ∀ n s, o.Used n s → o.Used n (w s)
  adds : ∀ n s, o.Used n (w s) → o.Used n s ∨ n ∈ drawn

/-- After the write the number is still in no row. -/
def LockOrder.Passes (w : S → S) (before after : Option Nat) : Prop :=
  after = none ∨ (after = before ∧ ∀ n s, o.Used n (w s) → o.Used n s)

/-- Where no row has the number `n`, the body is about to raise. -/
def LockOrder.Checked (n : Nat) : Tx S K E M α → Prop
  | .raise _ => True
  | .stmt _ rest => ∀ s, ¬ o.Used n s → ∃ e, rest s = .raise e
  | .ret _ | .lock _ _ | .peek _ | .fresh _ | .publish _ _ => False

/-- A lock that is taken already, the lock of a row of its own, or a lock above all that
are held. In the last case the row may not exist: the next statement finds out. -/
def LockOrder.MayLock (x : Stand K) (k : K) (rest : Tx S K E M α) : Prop :=
  k ∈ x.held ∨ (∃ n ∈ x.drawn, o.number k = some n) ∨
    ((∀ j ∈ x.held, o.level j < o.level k) ∧ ∀ n ∈ o.number k, o.Checked n rest)

/-- The body takes its locks in order, gives rows no number that it has not drawn, and
raises nothing but what `Q` allows. `post` receives where it stands at the end. -/
def Tx.Orderly (Q : E → Prop) : Stand K → Tx S K E M α → (Stand K → α → Prop) → Prop
  | x, ret a, post => post x a
  | _, raise e, _ => Q e
  | x, lock k rest, post => o.MayLock x k rest ∧ rest.Orderly Q (x.lock k) post
  | x, stmt w rest, post => o.Fits x.drawn w ∧ ∃ blank, o.Passes w x.blank blank ∧
      ∀ s, (∀ n ∈ x.blank, ¬ o.Used n s) → (rest s).Orderly Q (x.write blank) post
  | x, peek rest, post => ∀ s, (rest s).Orderly Q x post
  | x, fresh rest, post => ∀ n, (rest n).Orderly Q (x.draw n) post
  | x, publish _ rest, post => rest.Orderly Q x post

variable {o}

theorem LockOrder.Fits.id {drawn : List Nat} : o.Fits drawn (id : S → S) :=
  ⟨fun _ _ h => h, fun _ _ h => .inl h⟩

theorem LockOrder.Fits.comp {drawn : List Nat} {f g : S → S} (hf : o.Fits drawn f)
    (hg : o.Fits drawn g) : o.Fits drawn (g ∘ f) := by
  constructor
  · intro n s h
    exact hg.keeps n _ (hf.keeps n s h)
  · intro n s h
    rcases hg.adds n (f s) h with h | h
    · exact hf.adds n s h
    · exact .inr h

theorem LockOrder.Fits.mono {drawn drawn' : List Nat} {f : S → S} (hf : o.Fits drawn f)
    (hsub : drawn ⊆ drawn') : o.Fits drawn' f := by
  refine ⟨hf.keeps, ?_⟩
  intro n s h
  rcases hf.adds n s h with h | h
  · exact .inl h
  · exact .inr (hsub h)

/-- A write that leaves all numbers as they are. -/
theorem LockOrder.Fits.of_same {drawn : List Nat} {f : S → S}
    (h : ∀ n s, o.Used n (f s) ↔ o.Used n s) : o.Fits drawn f :=
  ⟨fun n s => (h n s).mpr, fun n s hn => .inl ((h n s).mp hn)⟩

theorem checked_bind {n : Nat} {p : Tx S K E M α} {f : α → Tx S K E M β} (h : o.Checked n p) :
    o.Checked n (p.bind f) := by
  cases p with
  | raise e => trivial
  | stmt w rest =>
    intro s hs
    obtain ⟨e, he⟩ := h s hs
    exact ⟨e, congrArg (fun q => Tx.bind q f) he⟩
  | ret | lock | peek | fresh | publish => cases h

theorem mayLock_bind {x : Stand K} {k : K} {p : Tx S K E M α} {f : α → Tx S K E M β}
    (h : o.MayLock x k p) : o.MayLock x k (p.bind f) := by
  rcases h with h | h | ⟨habove, hchecked⟩
  · exact .inl h
  · exact .inr (.inl h)
  · exact .inr (.inr ⟨habove, fun n hn => checked_bind (hchecked n hn)⟩)

section Rules
variable {Q : E → Prop} {x : Stand K}

theorem Tx.Orderly.bind {p : Tx S K E M α} {f : α → Tx S K E M β} {post : Stand K → β → Prop}
    (h : p.Orderly o Q x (fun y a => (f a).Orderly o Q y post)) :
    (p >>= f).Orderly o Q x post := by
  change (p.bind f).Orderly o Q x post
  induction p generalizing x with
  | ret a => exact h
  | raise e => exact h
  | lock k rest ih => exact ⟨mayLock_bind h.1, ih h.2⟩
  | stmt w rest ih =>
    obtain ⟨hfits, blank, hpasses, hrest⟩ := h
    exact ⟨hfits, blank, hpasses, fun s hs => ih s (hrest s hs)⟩
  | peek rest ih => exact fun s => ih s (h s)
  | fresh rest ih => exact fun n => ih n (h n)
  | publish m rest ih => exact ih h

theorem Tx.Orderly.mono {p : Tx S K E M α} {post post' : Stand K → α → Prop}
    (h : p.Orderly o Q x post) (hpost : ∀ y a, post y a → post' y a) :
    p.Orderly o Q x post' := by
  induction p generalizing x with
  | ret a => exact hpost x a h
  | raise e => exact h
  | lock k rest ih => exact ⟨h.1, ih h.2⟩
  | stmt w rest ih =>
    obtain ⟨hfits, blank, hpasses, hrest⟩ := h
    exact ⟨hfits, blank, hpasses, fun s hs => ih s (hrest s hs)⟩
  | peek rest ih => exact fun s => ih s (h s)
  | fresh rest ih => exact fun n => ih n (h n)
  | publish m rest ih => exact ih h

end Rules

/-- What is known of where a transaction stands: all it holds is below a level, and it has
these keys and these numbers. -/
structure Known (K : Type) where
  below : Nat
  keys : List K
  numbers : List Nat

/-- The keys may be used again without waiting. -/
def Known.lock (k : K) (level : Nat) (z : Known K) : Known K :=
  ⟨max z.below (level + 1), k :: z.keys, z.numbers⟩

def Known.draw (n : Nat) (z : Known K) : Known K := { z with numbers := n :: z.numbers }

/-- Nothing is known to begin with, and nothing is held. -/
def Known.start : Known K := ⟨0, [], []⟩

variable (o) in
structure Known.Of (z : Known K) (x : Stand K) : Prop where
  below : ∀ j ∈ x.held, o.level j < z.below
  keys : z.keys ⊆ x.held
  numbers : z.numbers ⊆ x.drawn

variable (o) in
/-- Wherever `z` is known the body is in order, and `z'` is known in the end. -/
structure Orders (Q : E → Prop) (z z' : Known K) (p : Tx S K E M α) : Prop where
  orderly : ∀ x, z.Of o x → p.Orderly o Q x (fun y _ => z'.Of o y)

/-- `z'` says no more than `z`. -/
structure Known.Implies (z z' : Known K) : Prop where
  below : z.below ≤ z'.below
  keys : z'.keys ⊆ z.keys
  numbers : z'.numbers ⊆ z.numbers

theorem known_start : (Known.start : Known K).Of o Stand.start where
  below := fun _ hj => absurd hj List.not_mem_nil
  keys := List.Subset.refl _
  numbers := List.Subset.refl _

section Orders
variable {Q : E → Prop} {z z' z'' : Known K} {p : Tx S K E M α} {f : α → Tx S K E M β}

theorem Known.Of.implies {x : Stand K} (h : z.Of o x) (hz : z.Implies z') : z'.Of o x where
  below := fun j hj => Nat.lt_of_lt_of_le (h.below j hj) hz.below
  keys := fun _ hk => h.keys (hz.keys hk)
  numbers := fun _ hn => h.numbers (hz.numbers hn)

theorem Known.Of.write {x : Stand K} (h : z.Of o x) (blank : Option Nat) :
    z.Of o (x.write blank) :=
  ⟨h.below, h.keys, h.numbers⟩

theorem Known.Of.draw {x : Stand K} (h : z.Of o x) (n : Nat) : (z.draw n).Of o (x.draw n) :=
  ⟨h.below, h.keys, List.cons_subset_cons n h.numbers⟩

theorem Known.Of.lock {x : Stand K} (h : z.Of o x) (k : K) :
    (z.lock k (o.level k)).Of o (x.lock k) := by
  refine ⟨?_, List.cons_subset_cons k h.keys, h.numbers⟩
  intro j hj
  simp only [Known.lock]
  rcases List.mem_cons.mp hj with rfl | hj
  · omega
  · have hlow := h.below j hj
    omega

theorem Orders.andThen {y : Known K} (hp : Orders o Q z y p) (hf : ∀ a, Orders o Q y z'' (f a)) :
    Orders o Q z z'' (p >>= f) := by
  constructor
  intro x hx
  apply Tx.Orderly.bind
  exact (hp.orderly x hx).mono fun y a hy => (hf a).orderly y hy

theorem Orders.implies (hp : Orders o Q z z' p) (hz : z'.Implies z'') : Orders o Q z z'' p := by
  constructor
  intro x hx
  exact (hp.orderly x hx).mono fun y _ hy => hy.implies hz

theorem orders_pure (a : α) : Orders o Q z z (pure a : Tx S K E M α) :=
  ⟨fun _ hx => hx⟩

theorem orders_raise {e : E} (he : Q e) : Orders o Q z z' (Tx.raise e : Tx S K E M α) :=
  ⟨fun _ _ => he⟩

theorem Orders.map (hp : Orders o Q z z' p) (g : α → β) : Orders o Q z z' (g <$> p) :=
  hp.andThen fun a => orders_pure (g a)

theorem orders_refuse (c : Prop) [Decidable c] {e : E} (he : Q e) :
    Orders o Q z z (Tx.refuse c e : Tx S K E M Unit) := by
  unfold Tx.refuse
  split
  · exact orders_raise he
  · exact orders_pure ()

theorem orders_require (a : Option α) {e : E} (he : Q e) :
    Orders o Q z z (Tx.require a e : Tx S K E M α) := by
  cases a with
  | some a => exact orders_pure a
  | none => exact orders_raise he

theorem orders_ofExcept {a : Except E α} (ha : ∀ e, a = .error e → Q e) :
    Orders o Q z z (Tx.ofExcept a : Tx S K E M α) := by
  cases a with
  | ok a => exact orders_pure a
  | error e => exact orders_raise (ha e rfl)

theorem orders_when (c : Prop) [Decidable c] {p : Tx S K E M Unit} (hz : z.Implies z')
    (hp : Orders o Q z z' p) : Orders o Q z z' (Tx.when c p) := by
  unfold Tx.when
  split
  · exact hp
  · exact (orders_pure ()).implies hz

theorem orders_glance (g : S → α) : Orders o Q z z (Tx.glance g : Tx S K E M α) :=
  ⟨fun _ hx _ => hx⟩

theorem orders_query (g : S → α) : Orders o Q z z (Tx.query g : Tx S K E M α) := by
  constructor
  intro x hx
  refine ⟨.id, x.blank, .inr ⟨rfl, fun _ _ h => h⟩, ?_⟩
  intro s _
  exact hx.write _

theorem orders_draw : Orders o Q z z (Tx.draw : Tx S K E M Nat) := by
  constructor
  intro x hx n
  exact ⟨hx.below, hx.keys, fun m hm => List.mem_cons_of_mem n (hx.numbers hm)⟩

theorem orders_send (m : M) : Orders o Q z z (Tx.send m : Tx S K E M Unit) :=
  ⟨fun _ hx => hx⟩

theorem orders_update {w : S → S} (hw : o.Fits z.numbers w) :
    Orders o Q z z (Tx.update w : Tx S K E M Unit) := by
  constructor
  intro x hx
  refine ⟨hw.mono hx.numbers, none, .inl rfl, ?_⟩
  intro s _
  exact hx.write none

theorem orders_forEach {p : α → Tx S K E M Unit} (hp : ∀ a, Orders o Q z z (p a))
    (xs : List α) : Orders o Q z z (Tx.forEach xs p) := by
  induction xs with
  | nil => exact orders_pure ()
  | cons a rest ih => exact (hp a).andThen fun _ => ih

/-- A lock whose row is there in any case. -/
theorem orders_acquire {k : K} {f : Unit → Tx S K E M β} (hnumber : o.number k = none)
    (hk : k ∈ z.keys ∨ z.below ≤ o.level k) (hf : Orders o Q (z.lock k (o.level k)) z' (f ())) :
    Orders o Q z z' (Tx.acquire k >>= f) := by
  constructor
  intro x hx
  refine ⟨?_, hf.orderly _ (hx.lock k)⟩
  rcases hk with hk | hk
  · exact .inl (hx.keys hk)
  · refine .inr (.inr ⟨fun j hj => Nat.lt_of_lt_of_le (hx.below j hj) hk, ?_⟩)
    rw [hnumber]
    exact fun _ hn => by cases hn

/-- The lock of a row whose number may be wrong: the first statement after it finds out. -/
theorem orders_find {k : K} {n : Nat} {f : Unit → Tx S K E M β} (hnumber : o.number k = some n)
    (hk : z.below ≤ o.level k) (hcheck : o.Checked n (f ()))
    (hf : Orders o Q (z.lock k (o.level k)) z' (f ())) : Orders o Q z z' (Tx.acquire k >>= f) := by
  constructor
  intro x hx
  refine ⟨.inr (.inr ⟨fun j hj => Nat.lt_of_lt_of_le (hx.below j hj) hk, ?_⟩),
    hf.orderly _ (hx.lock k)⟩
  rw [hnumber]
  intro m hm
  cases hm
  exact hcheck

/-- The lock of a row that is locked already, or that has a number of its own. -/
theorem orders_own {k : K} {f : Unit → Tx S K E M β}
    (hk : k ∈ z.keys ∨ ∃ n ∈ z.numbers, o.number k = some n)
    (hf : Orders o Q (z.lock k (o.level k)) z' (f ())) : Orders o Q z z' (Tx.acquire k >>= f) := by
  constructor
  intro x hx
  refine ⟨?_, hf.orderly _ (hx.lock k)⟩
  rcases hk with hk | ⟨n, hn, hnumber⟩
  · exact .inl (hx.keys hk)
  · exact .inr (.inl ⟨n, hx.numbers hn, hnumber⟩)

/-- A number is drawn, and the next statement asks whether some row has it: none does. -/
theorem orders_number {used : S → List Nat} {e : E} {f : Nat → Tx S K E M β}
    (hused : ∀ n s, n ∈ used s → o.Used n s) (hf : ∀ n, Orders o Q (z.draw n) z' (f n)) :
    Orders o Q z z' ((do
      let n ← Tx.draw
      let ns ← Tx.query used
      Tx.refuse (n ∈ ns) e
      pure n) >>= f) := by
  constructor
  intro x hx n
  refine ⟨.id, some n, .inr ⟨rfl, fun _ _ h => h⟩, ?_⟩
  intro s hs
  have hnew : n ∉ used s := fun hn => hs n rfl (hused n s hn)
  change (((Tx.refuse (n ∈ used s) e).bind fun _ => Tx.ret n).bind f).Orderly o Q _ _
  rw [Tx.refuse, if_neg hnew]
  exact (hf n).orderly _ ((hx.draw n).write _)

end Orders

end Bodies

end Transactions
