import MbararaAuction.Transactions.Exec

namespace Transactions

/-- What each lock protects, as a relation between states that agree on it. -/
structure Protection (K S : Type) where
  Agree : K → S → S → Prop
  refl : ∀ k s, Agree k s s
  symm : ∀ {k s t}, Agree k s t → Agree k t s
  trans : ∀ {k s t u}, Agree k s t → Agree k t u → Agree k s u

section Discipline
variable {S K E M α β : Type} (pr : Protection K S)

def Protection.AgreeOn (held : List K) (s t : S) : Prop :=
  ∀ k ∈ held, pr.Agree k s t

/-- A write under the locks `held` touches only what they protect, and what it
leaves there depends on nothing else. -/
structure Protection.Respects (held : List K) (f : S → S) : Prop where
  inside : ∀ s t, pr.AgreeOn held s t → pr.AgreeOn held (f s) (f t)
  outside : ∀ k, k ∉ held → ∀ s, pr.Agree k s (f s)

/-- The locking discipline: every statement reads and writes only under the locks
taken before it. `post` receives the locks held at the end. -/
def Tx.Guarded : List K → Tx S K E M α → (List K → α → Prop) → Prop
  | held, ret a, post => post held a
  | _, raise _, _ => True
  | held, lock k rest, post => rest.Guarded (k :: held) post
  | held, stmt f rest, post =>
    (∀ s t, pr.AgreeOn held s t → rest s = rest t) ∧ pr.Respects held f ∧
      ∀ s, (rest s).Guarded held post
  | held, peek rest, post => ∀ s, (rest s).Guarded held post
  | held, fresh rest, post => ∀ n, (rest n).Guarded held post
  | held, publish _ rest, post => rest.Guarded held post

variable {pr} {held : List K}

theorem Protection.AgreeOn.refl (s : S) : pr.AgreeOn held s s :=
  fun k _ => pr.refl k s

theorem Protection.AgreeOn.symm {s t : S} (h : pr.AgreeOn held s t) : pr.AgreeOn held t s :=
  fun k hk => pr.symm (h k hk)

theorem Protection.AgreeOn.trans {s t u : S} (h : pr.AgreeOn held s t)
    (h' : pr.AgreeOn held t u) : pr.AgreeOn held s u :=
  fun k hk => pr.trans (h k hk) (h' k hk)

theorem Protection.AgreeOn.tail {k : K} {s t : S} (h : pr.AgreeOn (k :: held) s t) :
    pr.AgreeOn held s t :=
  fun j hj => h j (List.mem_cons_of_mem _ hj)

theorem Protection.Respects.id : pr.Respects held (id : S → S) :=
  ⟨fun _ _ h => h, fun k _ s => pr.refl k s⟩

theorem Protection.Respects.comp {f g : S → S} (hf : pr.Respects held f)
    (hg : pr.Respects held g) : pr.Respects held (g ∘ f) :=
  ⟨fun s t h => hg.inside _ _ (hf.inside s t h),
    fun k hk s => pr.trans (hf.outside k hk s) (hg.outside k hk (f s))⟩

theorem Protection.AgreeOn.mono {held' : List K} {s t : S} (hsub : held ⊆ held')
    (h : pr.AgreeOn held' s t) : pr.AgreeOn held s t :=
  fun k hk => h k (hsub hk)

/-- More locks never break the discipline of a write. -/
theorem Protection.Respects.mono {held' : List K} {f : S → S} (hf : pr.Respects held f)
    (hsub : held ⊆ held') : pr.Respects held' f := by
  refine ⟨?_, fun j hj s => hf.outside j (fun hm => hj (hsub hm)) s⟩
  intro s t h j hj
  rcases Classical.em (j ∈ held) with hm | hm
  · exact hf.inside s t (h.mono hsub) j hm
  · exact pr.trans (pr.symm (hf.outside j hm s)) (pr.trans (h j hj) (hf.outside j hm t))

theorem Protection.Respects.cons {f : S → S} (hf : pr.Respects held f) (k : K) :
    pr.Respects (k :: held) f := hf.mono (List.subset_cons_self k held)

/-- A body that is disciplined under some locks is disciplined under more. -/
theorem Tx.Guarded.weaken {held' : List K} {p : Tx S K E M α} {post post' : List K → α → Prop}
    (h : p.Guarded pr held post) (hsub : held ⊆ held')
    (hpost : ∀ {j j' a}, j ⊆ j' → post j a → post' j' a) : p.Guarded pr held' post' := by
  induction p generalizing held held' with
  | ret a => exact hpost hsub h
  | raise e => trivial
  | lock k rest ih => exact ih h (List.cons_subset_cons k hsub)
  | stmt f rest ih =>
    obtain ⟨hread, hwrite, hrest⟩ := h
    exact ⟨fun s t ha => hread s t (ha.mono hsub), hwrite.mono hsub, fun s => ih s (hrest s) hsub⟩
  | peek rest ih => exact fun s => ih s (h s) hsub
  | fresh rest ih => exact fun n => ih n (h n) hsub
  | publish m rest ih => exact ih h hsub

theorem Tx.Guarded.mono {p : Tx S K E M α} {post post' : List K → α → Prop}
    (h : p.Guarded pr held post) (hpost : ∀ held a, post held a → post' held a) :
    p.Guarded pr held post' := by
  induction p generalizing held with
  | ret a => exact hpost held a h
  | raise e => trivial
  | lock k rest ih => exact ih h
  | stmt f rest ih => exact ⟨h.1, h.2.1, fun s => ih s (h.2.2 s)⟩
  | peek rest ih => exact fun s => ih s (h s)
  | fresh rest ih => exact fun n => ih n (h n)
  | publish m rest ih => exact ih h

theorem Tx.Guarded.bind {p : Tx S K E M α} {f : α → Tx S K E M β} {post : List K → β → Prop}
    (h : p.Guarded pr held (fun held' a => (f a).Guarded pr held' post)) :
    (p >>= f).Guarded pr held post := by
  change (p.bind f).Guarded pr held post
  induction p generalizing held with
  | ret a => exact h
  | raise e => trivial
  | lock k rest ih => exact ih h
  | stmt g rest ih =>
    refine ⟨fun s t ha => ?_, h.2.1, fun s => ih s (h.2.2 s)⟩
    exact congrArg (fun q => Tx.bind q f) (h.1 s t ha)
  | peek rest ih => exact fun s => ih s (h s)
  | fresh rest ih => exact fun n => ih n (h n)
  | publish m rest ih => exact ih h

variable {post : List K → α → Prop}

theorem guarded_pure {a : α} (h : post held a) :
    (pure a : Tx S K E M α).Guarded pr held post := h

theorem guarded_raise (e : E) : (Tx.raise e : Tx S K E M α).Guarded pr held post := trivial

theorem guarded_acquire {k : K} {post : List K → Unit → Prop} (h : post (k :: held) ()) :
    (Tx.acquire k : Tx S K E M Unit).Guarded pr held post := h

theorem guarded_query {f : S → α} (hf : ∀ s t, pr.AgreeOn held s t → f s = f t)
    (h : ∀ s, post held (f s)) : (Tx.query f : Tx S K E M α).Guarded pr held post :=
  ⟨fun s t ha => congrArg Tx.ret (hf s t ha), .id, h⟩

theorem guarded_glance {f : S → α} (h : ∀ s, post held (f s)) :
    (Tx.glance f : Tx S K E M α).Guarded pr held post := h

theorem guarded_update {f : S → S} {post : List K → Unit → Prop} (hf : pr.Respects held f)
    (h : post held ()) : (Tx.update f : Tx S K E M Unit).Guarded pr held post :=
  ⟨fun _ _ _ => rfl, hf, fun _ => h⟩

theorem guarded_draw {post : List K → Nat → Prop} (h : ∀ n, post held n) :
    (Tx.draw : Tx S K E M Nat).Guarded pr held post := h

theorem guarded_send {m : M} {post : List K → Unit → Prop} (h : post held ()) :
    (Tx.send m : Tx S K E M Unit).Guarded pr held post := h

/-- Two bodies one after the other. -/
theorem Tx.Guarded.andThen {p : Tx S K E M α} {f : α → Tx S K E M β} {B : List K → α → Prop}
    {post : List K → β → Prop} (hp : p.Guarded pr held B)
    (hf : ∀ held' a, B held' a → (f a).Guarded pr held' post) :
    (p >>= f).Guarded pr held post :=
  .bind (hp.mono hf)

end Discipline

end Transactions
