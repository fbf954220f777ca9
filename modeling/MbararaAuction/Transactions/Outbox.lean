import MbararaAuction.Transactions.Exec

namespace Transactions

section Bodies
variable {S K E M α β : Type}

/-- Every statement of the body writes as `W` allows. -/
def Tx.Writes (W : (S → S) → Prop) : Tx S K E M α → Prop
  | ret _ | raise _ => True
  | lock _ rest | publish _ rest => rest.Writes W
  | stmt write rest => W write ∧ ∀ s, (rest s).Writes W
  | peek rest => ∀ s, (rest s).Writes W
  | fresh rest => ∀ n, (rest n).Writes W

/-- The body publishes only messages about rows that it has written before, or that
`own` holds when it begins. -/
def Tx.Announces (stored : M → S → Prop) (own : M → Prop) : Tx S K E M α → Prop
  | ret _ | raise _ => True
  | lock _ rest => rest.Announces stored own
  | stmt write rest => ∀ s, (rest s).Announces stored fun m => own m ∨ ∀ s, stored m (write s)
  | peek rest => ∀ s, (rest s).Announces stored own
  | fresh rest => ∀ n, (rest n).Announces stored own
  | publish m rest => own m ∧ rest.Announces stored own

/-- Beginning with the messages `owed`, and owing from then on what it writes a row for until
it publishes it, the body ends with what `post` says of its outcome and of what it owes. -/
def Tx.Clears (stored : M → S → Prop) (post : Except E α → (M → Prop) → Prop) (owed : M → Prop) :
    Tx S K E M α → Prop
  | ret a => post (.ok a) owed
  | raise e => post (.error e) owed
  | lock _ rest => rest.Clears stored post owed
  | stmt write rest => ∀ s, (rest s).Clears stored post fun m =>
      owed m ∨ ∃ t, stored m (write t) ∧ ¬ stored m t
  | peek rest => ∀ s, (rest s).Clears stored post owed
  | fresh rest => ∀ n, (rest n).Clears stored post owed
  | publish m rest => rest.Clears stored post fun m' => owed m' ∧ m' ≠ m

/-- The body owes no more when it ends than when it began. -/
def Tx.Balances (stored : M → S → Prop) (p : Tx S K E M α) : Prop :=
  ∀ owed, p.Clears stored (fun _ left => ∀ m, left m → owed m) owed

/-- The body publishes only what `P` allows, and raises only what `Q` allows. -/
def Tx.Says (P : M → Prop) (Q : E → Prop) : Tx S K E M α → Prop
  | ret _ => True
  | raise e => Q e
  | lock _ rest => rest.Says P Q
  | stmt _ rest | peek rest => ∀ s, (rest s).Says P Q
  | fresh rest => ∀ n, (rest n).Says P Q
  | publish m rest => P m ∧ rest.Says P Q

/-- The body publishes nothing. -/
abbrev Tx.Mute (p : Tx S K E M α) : Prop := p.Says (fun _ => False) (fun _ => True)

/-- The body raises only what `Q` allows. -/
abbrev Tx.Admits (Q : E → Prop) (p : Tx S K E M α) : Prop := p.Says (fun _ => True) Q

/-- Once it has published, the body raises only what `Q` allows. -/
def Tx.Firm (Q : E → Prop) : Tx S K E M α → Prop
  | ret _ | raise _ => True
  | lock _ rest => rest.Firm Q
  | stmt _ rest | peek rest => ∀ s, (rest s).Firm Q
  | fresh rest => ∀ n, (rest n).Firm Q
  | publish _ rest => rest.Admits Q

section Rules
variable {W : (S → S) → Prop} {stored : M → S → Prop} {own : M → Prop}
variable {p : Tx S K E M α} {f : α → Tx S K E M β}

theorem Tx.Writes.bind (hp : p.Writes W) (hf : ∀ a, (f a).Writes W) : (p >>= f).Writes W := by
  change (p.bind f).Writes W
  induction p with
  | ret a => exact hf a
  | raise e => trivial
  | lock k rest ih => exact ih hp
  | stmt write rest ih => exact ⟨hp.1, fun s => ih s (hp.2 s)⟩
  | peek rest ih => exact fun s => ih s (hp s)
  | fresh rest ih => exact fun n => ih n (hp n)
  | publish m rest ih => exact ih hp

theorem Tx.Announces.bind (hp : p.Announces stored own)
    (hf : ∀ a own, (f a).Announces stored own) : (p >>= f).Announces stored own := by
  change (p.bind f).Announces stored own
  induction p generalizing own with
  | ret a => exact hf a own
  | raise e => trivial
  | lock k rest ih => exact ih hp
  | stmt write rest ih => exact fun s => ih s (hp s)
  | peek rest ih => exact fun s => ih s (hp s)
  | fresh rest ih => exact fun n => ih n (hp n)
  | publish m rest ih => exact ⟨hp.1, ih hp.2⟩

/-- What every write relates, a whole execution relates. -/
theorem Tx.Writes.exec {R : S → S → Prop} (hrefl : ∀ s, R s s)
    (htrans : ∀ {s t u}, R s t → R t u → R s u) (hW : ∀ {write}, W write → ∀ s, R s (write s))
    {sees : S → S → Prop} {s s' : S} {out : Except E α} (hp : p.Writes W)
    (hx : p.Exec sees s out s') : R s s' := by
  induction p generalizing s with
  | ret a =>
    rw [hx.2]
    exact hrefl s
  | raise e =>
    rw [hx.2]
    exact hrefl s
  | lock k rest ih => exact ih hp hx
  | stmt write rest ih => exact htrans (hW hp.1 s) (ih s (hp.2 s) hx)
  | peek rest ih =>
    obtain ⟨u, _, hx⟩ := hx
    exact ih u (hp u) hx
  | fresh rest ih =>
    obtain ⟨n, hx⟩ := hx
    exact ih n (hp n) hx
  | publish m rest ih => exact ih hp hx

theorem writes_pure (a : α) : (pure a : Tx S K E M α).Writes W := trivial

theorem writes_acquire (k : K) : (Tx.acquire k : Tx S K E M Unit).Writes W := trivial

theorem writes_glance (f : S → α) : (Tx.glance f : Tx S K E M α).Writes W := fun _ => trivial

theorem writes_draw : (Tx.draw : Tx S K E M Nat).Writes W := fun _ => trivial

theorem writes_send (m : M) : (Tx.send m : Tx S K E M Unit).Writes W := trivial

theorem Tx.Writes.map (hp : p.Writes W) (g : α → β) : (g <$> p).Writes W :=
  hp.bind fun a => writes_pure (g a)

theorem writes_refuse (c : Prop) [Decidable c] (e : E) :
    (Tx.refuse c e : Tx S K E M Unit).Writes W := by
  unfold Tx.refuse
  split <;> trivial

theorem writes_require (a : Option α) (e : E) : (Tx.require a e : Tx S K E M α).Writes W := by
  cases a <;> trivial

theorem writes_ofExcept (x : Except E α) : (Tx.ofExcept x : Tx S K E M α).Writes W := by
  cases x <;> trivial

theorem writes_when (c : Prop) [Decidable c] {p : Tx S K E M Unit} (hp : p.Writes W) :
    (Tx.when c p).Writes W := by
  unfold Tx.when
  split
  · exact hp
  · trivial

theorem writes_query (h : W id) (f : S → α) : (Tx.query f : Tx S K E M α).Writes W :=
  ⟨h, fun _ => trivial⟩

theorem writes_update {write : S → S} (h : W write) : (Tx.update write : Tx S K E M Unit).Writes W :=
  ⟨h, fun _ => trivial⟩

theorem writes_forEach {p : α → Tx S K E M Unit} (h : ∀ x, (p x).Writes W) (xs : List α) :
    (Tx.forEach xs p).Writes W := by
  induction xs with
  | nil => trivial
  | cons x rest ih => exact Tx.Writes.bind (h x) fun _ => ih

end Rules

section Owing
variable {stored : M → S → Prop} {owed : M → Prop} {p : Tx S K E M α} {f : α → Tx S K E M β}

theorem Tx.Clears.mono {post post' : Except E α → (M → Prop) → Prop}
    (hp : p.Clears stored post owed) (h : ∀ out left, post out left → post' out left) :
    p.Clears stored post' owed := by
  induction p generalizing owed with
  | ret a => exact h _ _ hp
  | raise e => exact h _ _ hp
  | lock k rest ih => exact ih hp
  | stmt write rest ih => exact fun s => ih s (hp s)
  | peek rest ih => exact fun s => ih s (hp s)
  | fresh rest ih => exact fun n => ih n (hp n)
  | publish m rest ih => exact ih hp

theorem Tx.Clears.bind {post : Except E α → (M → Prop) → Prop}
    {post' : Except E β → (M → Prop) → Prop} (hp : p.Clears stored post owed)
    (hok : ∀ a left, post (.ok a) left → (f a).Clears stored post' left)
    (herr : ∀ e left, post (.error e) left → post' (.error e) left) :
    (p >>= f).Clears stored post' owed := by
  change (p.bind f).Clears stored post' owed
  induction p generalizing owed with
  | ret a => exact hok a owed hp
  | raise e => exact herr e owed hp
  | lock k rest ih => exact ih hp
  | stmt write rest ih => exact fun s => ih s (hp s)
  | peek rest ih => exact fun s => ih s (hp s)
  | fresh rest ih => exact fun n => ih n (hp n)
  | publish m rest ih => exact ih hp

theorem Tx.Balances.bind (hp : p.Balances stored) (hf : ∀ a, (f a).Balances stored) :
    (p >>= f).Balances stored := by
  intro owed
  apply (hp owed).bind
  · intro a left hleft
    exact (hf a left).mono fun _ rest hrest m hm => hleft m (hrest m hm)
  · exact fun _ _ hleft => hleft

theorem balances_update {write : S → S} (h : ∀ m t, stored m (write t) → stored m t) :
    (Tx.update write : Tx S K E M Unit).Balances stored := by
  rintro owed s m (hm | ⟨t, hnew, hold⟩)
  · exact hm
  · exact absurd (h m t hnew) hold

theorem balances_query (g : S → α) : (Tx.query g : Tx S K E M α).Balances stored := by
  rintro owed s m (hm | ⟨t, hnew, hold⟩)
  · exact hm
  · exact absurd hnew hold

end Owing

section Saying
variable {P : M → Prop} {Q : E → Prop} {p : Tx S K E M α} {f : α → Tx S K E M β}

theorem Tx.Says.mono {P' : M → Prop} {Q' : E → Prop} (h : p.Says P Q) (hP : ∀ m, P m → P' m)
    (hQ : ∀ e, Q e → Q' e) : p.Says P' Q' := by
  induction p with
  | ret a => trivial
  | raise e => exact hQ e h
  | lock k rest ih => exact ih h
  | stmt write rest ih => exact fun s => ih s (h s)
  | peek rest ih => exact fun s => ih s (h s)
  | fresh rest ih => exact fun n => ih n (h n)
  | publish m rest ih => exact ⟨hP m h.1, ih h.2⟩

theorem Tx.Says.bind (hp : p.Says P Q) (hf : ∀ a, (f a).Says P Q) : (p >>= f).Says P Q := by
  change (p.bind f).Says P Q
  induction p with
  | ret a => exact hf a
  | raise e => exact hp
  | lock k rest ih => exact ih hp
  | stmt write rest ih => exact fun s => ih s (hp s)
  | peek rest ih => exact fun s => ih s (hp s)
  | fresh rest ih => exact fun n => ih n (hp n)
  | publish m rest ih => exact ⟨hp.1, ih hp.2⟩

/-- What the text of a body does not raise, no execution of it raises. -/
theorem Tx.Admits.throws (h : p.Admits Q) : p.Throws Q := by
  refine ⟨fun {sees s e s'} hx => ?_⟩
  induction p generalizing s with
  | ret a => cases hx.1
  | raise e' =>
    cases hx.1
    exact h
  | lock k rest ih => exact ih h hx
  | stmt write rest ih => exact ih s (h s) hx
  | peek rest ih =>
    obtain ⟨u, _, hx⟩ := hx
    exact ih u (h u) hx
  | fresh rest ih =>
    obtain ⟨n, hx⟩ := hx
    exact ih n (h n) hx
  | publish m rest ih => exact ih h.2 hx

theorem says_pure (a : α) : (pure a : Tx S K E M α).Says P Q := trivial

theorem says_acquire (k : K) : (Tx.acquire k : Tx S K E M Unit).Says P Q := trivial

theorem says_query (g : S → α) : (Tx.query g : Tx S K E M α).Says P Q := fun _ => trivial

theorem says_glance (g : S → α) : (Tx.glance g : Tx S K E M α).Says P Q := fun _ => trivial

theorem says_update (g : S → S) : (Tx.update g : Tx S K E M Unit).Says P Q := fun _ => trivial

theorem says_draw : (Tx.draw : Tx S K E M Nat).Says P Q := fun _ => trivial

theorem says_send {m : M} (h : P m) : (Tx.send m : Tx S K E M Unit).Says P Q := ⟨h, trivial⟩

theorem says_refuse (c : Prop) [Decidable c] {e : E} (h : c → Q e) :
    (Tx.refuse c e : Tx S K E M Unit).Says P Q := by
  unfold Tx.refuse
  split
  · next hc => exact h hc
  · trivial

theorem says_require (x : Option α) {e : E} (h : Q e) :
    (Tx.require x e : Tx S K E M α).Says P Q := by
  cases x with
  | none => exact h
  | some a => trivial

theorem says_ofExcept {x : Except E α} (h : ∀ e, x = .error e → Q e) :
    (Tx.ofExcept x : Tx S K E M α).Says P Q := by
  cases x with
  | error e => exact h e rfl
  | ok a => trivial

theorem says_when (c : Prop) [Decidable c] {p : Tx S K E M Unit} (hp : p.Says P Q) :
    (Tx.when c p).Says P Q := by
  unfold Tx.when
  split
  · exact hp
  · trivial

theorem says_forEach {p : α → Tx S K E M Unit} (h : ∀ x, (p x).Says P Q) (xs : List α) :
    (Tx.forEach xs p).Says P Q := by
  induction xs with
  | nil => trivial
  | cons x rest ih => exact Tx.Says.bind (h x) fun _ => ih

theorem Tx.Admits.firm (h : p.Admits Q) : p.Firm Q := by
  induction p with
  | ret a => trivial
  | raise e => trivial
  | lock k rest ih => exact ih h
  | stmt write rest ih => exact fun s => ih s (h s)
  | peek rest ih => exact fun s => ih s (h s)
  | fresh rest ih => exact fun n => ih n (h n)
  | publish m rest ih => exact h.2

/-- What comes before the first message may raise anything. -/
theorem mute_bind (hp : p.Mute) (hf : ∀ a, (f a).Firm Q) : (p >>= f).Firm Q := by
  change (p.bind f).Firm Q
  induction p with
  | ret a => exact hf a
  | raise e => trivial
  | lock k rest ih => exact ih hp
  | stmt write rest ih => exact fun s => ih s (hp s)
  | peek rest ih => exact fun s => ih s (hp s)
  | fresh rest ih => exact fun n => ih n (hp n)
  | publish m rest ih => exact hp.1.elim

theorem Tx.Firm.bind (hp : p.Firm Q) (hf : ∀ a, (f a).Admits Q) : (p >>= f).Firm Q := by
  change (p.bind f).Firm Q
  induction p with
  | ret a => exact (hf a).firm
  | raise e => trivial
  | lock k rest ih => exact ih hp
  | stmt write rest ih => exact fun s => ih s (hp s)
  | peek rest ih => exact fun s => ih s (hp s)
  | fresh rest ih => exact fun n => ih n (hp n)
  | publish m rest ih => exact Tx.Says.bind hp hf

theorem Tx.Firm.map (hp : p.Firm Q) (g : α → β) : (g <$> p).Firm Q :=
  hp.bind fun a => says_pure (g a)

end Saying

end Bodies

end Transactions
