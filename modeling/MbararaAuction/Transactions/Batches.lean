import Mathlib.Data.List.Basic
import MbararaAuction.Transactions.Program

namespace Transactions

/-- One turn of a loop: the item, what it found and what it left. -/
structure Turn (α W : Type) where
  item : α
  found : W
  left : W

/-- What a loop has done: its turns, where they ended, and whether the loop got there. -/
structure Batch (α W : Type) where
  turns : List (Turn α W)
  last : W
  going : Bool

def Batch.cons {α W : Type} (t : Turn α W) (b : Batch α W) : Batch α W :=
  { b with turns := t :: b.turns }

section Batches
variable {α W E R : Type}

/-- `for x in xs: turn(x)`, where others make a change before every turn. An exception
that is not caught ends the loop; the others go on without it. -/
def batch (turn : α → W → Except E R × W) (catches : E → Bool) (change : α → W → W) :
    Bool → List α → W → Batch α W
  | going, [], w => ⟨[], w, going⟩
  | false, x :: rest, w =>
    (batch turn catches change false rest (change x w)).cons ⟨x, change x w, change x w⟩
  | true, x :: rest, w =>
    match turn x (change x w) with
    | (.ok _, w') => (batch turn catches change true rest w').cons ⟨x, change x w, w'⟩
    | (.error e, w') => (batch turn catches change (catches e) rest w').cons ⟨x, change x w, w'⟩

/-- What the turns on the items `P` do where `I` holds: a turn that raises leaves
everything as it was, and one that does not, does not. -/
structure Attempts (turn : α → W → Except E R × W) (change : α → W → W) (I : W → Prop)
    (P : α → Prop) : Prop where
  change : ∀ x {w}, I w → I (change x w)
  done : ∀ {x w r w'}, P x → I w → turn x w = (.ok r, w') → w' ≠ w ∧ I w'
  undone : ∀ {x w e w'}, P x → I w → turn x w = (.error e, w') → w' = w

/-- The turn is made to no effect. -/
def Turn.Fails (turn : α → W → Except E R × W) (t : Turn α W) : Prop :=
  ∃ e, (turn t.item t.found).1 = .error e

section Rules
variable {turn : α → W → Except E R × W} {change : α → W → W} {catches strict : E → Bool}
variable {I : W → Prop} {P : α → Prop} {xs : List α} {w : W} {going : Bool}

/-- A turn succeeds and moves on, or it raises and leaves what it found. -/
theorem Attempts.cases (ha : Attempts turn change I P) {x : α} (hx : P x) (hw : I w) :
    (∃ r w', turn x w = (.ok r, w') ∧ w' ≠ w ∧ I w') ∨ ∃ e, turn x w = (.error e, w) := by
  cases hturn : turn x w with
  | mk out w' =>
    cases out with
    | ok r => exact .inl ⟨r, w', rfl, ha.done hx hw hturn⟩
    | error e =>
      rw [ha.undone hx hw hturn]
      exact .inr ⟨e, rfl⟩

/-- Whatever becomes of the loop, its items and what they find are as they should be. -/
theorem batch_found (ha : Attempts turn change I P) (hxs : ∀ x ∈ xs, P x) (hw : I w) :
    I (batch turn catches change going xs w).last ∧
      ∀ t ∈ (batch turn catches change going xs w).turns, P t.item ∧ I t.found := by
  induction xs generalizing w going with
  | nil => exact ⟨hw, fun t ht => by cases ht⟩
  | cons x rest ih =>
    obtain ⟨hx, hrest⟩ := List.forall_mem_cons.mp hxs
    have hfound := ha.change x hw
    cases going with
    | false =>
      obtain ⟨hlast, hturns⟩ := @ih _ false hrest hfound
      exact ⟨hlast, List.forall_mem_cons.mpr ⟨⟨hx, hfound⟩, hturns⟩⟩
    | true =>
      rcases ha.cases hx hfound with ⟨r, w', hturn, -, hw'⟩ | ⟨e, hturn⟩
      · obtain ⟨hlast, hturns⟩ := @ih _ true hrest hw'
        simp only [batch, hturn, Batch.cons]
        exact ⟨hlast, List.forall_mem_cons.mpr ⟨⟨hx, hfound⟩, hturns⟩⟩
      · obtain ⟨hlast, hturns⟩ := @ih _ (catches e) hrest hfound
        simp only [batch, hturn, Batch.cons]
        exact ⟨hlast, List.forall_mem_cons.mpr ⟨⟨hx, hfound⟩, hturns⟩⟩

/-- A loop that catches what its turns raise makes every turn. -/
theorem batch_patient (ha : Attempts turn change I P) (hxs : ∀ x ∈ xs, P x) (hw : I w)
    (hcatch : ∀ {x w e}, P x → I w → (turn x w).1 = .error e → catches e = true) :
    (batch turn catches change true xs w).going = true ∧
      ∀ t ∈ (batch turn catches change true xs w).turns, t.left = (turn t.item t.found).2 := by
  induction xs generalizing w with
  | nil => exact ⟨rfl, fun t ht => by cases ht⟩
  | cons x rest ih =>
    obtain ⟨hx, hrest⟩ := List.forall_mem_cons.mp hxs
    have hfound := ha.change x hw
    rcases ha.cases hx hfound with ⟨r, w', hturn, -, hw'⟩ | ⟨e, hturn⟩
    · obtain ⟨hgoing, hturns⟩ := ih hrest hw'
      simp only [batch, hturn, Batch.cons]
      exact ⟨hgoing, List.forall_mem_cons.mpr ⟨by rw [hturn], hturns⟩⟩
    · have hcaught : catches e = true := hcatch hx hfound (by rw [hturn])
      obtain ⟨hgoing, hturns⟩ := ih hrest hfound
      simp only [batch, hturn, Batch.cons, hcaught]
      exact ⟨hgoing, List.forall_mem_cons.mpr ⟨by rw [hturn], hturns⟩⟩

/-- Two loops do the same. -/
def Batch.Same (b b' : Batch α W) : Prop := b.turns = b'.turns ∧ b.last = b'.last

theorem same_cons {t : Turn α W} {b b' : Batch α W} : (b.cons t).Same (b'.cons t) ↔ b.Same b' := by
  simp [Batch.Same, Batch.cons]

theorem same_cons_ne {t t' : Turn α W} {b b' : Batch α W} (h : t ≠ t') :
    ¬ (b.cons t).Same (b'.cons t') := by
  simp [Batch.Same, Batch.cons, h]

/-- A loop that goes on does the same as one that has ended, if nothing is left to do. -/
theorem batch_ended (ha : Attempts turn change I P) (hxs : ∀ x ∈ xs, P x) (hw : I w)
    (hcatch : ∀ {x w e}, P x → I w → (turn x w).1 = .error e → catches e = true) :
    (batch turn catches change true xs w).Same (batch turn strict change false xs w) ↔
      ∀ t ∈ (batch turn strict change false xs w).turns, t.Fails turn := by
  induction xs generalizing w with
  | nil => simp [batch, Batch.Same]
  | cons x rest ih =>
    obtain ⟨hx, hrest⟩ := List.forall_mem_cons.mp hxs
    have hfound := ha.change x hw
    have hall : (∀ t ∈ (batch turn strict change false (x :: rest) w).turns, t.Fails turn) ↔
        Turn.Fails turn ⟨x, change x w, change x w⟩ ∧
          ∀ t ∈ (batch turn strict change false rest (change x w)).turns, t.Fails turn := by
      simp [batch, Batch.cons]
    rw [hall]
    rcases ha.cases hx hfound with ⟨r, w', hturn, hmoved, -⟩ | ⟨e, hturn⟩
    · have hne : (⟨x, change x w, w'⟩ : Turn α W) ≠ ⟨x, change x w, change x w⟩ := by
        simp [hmoved]
      simp only [batch, hturn]
      constructor
      · exact fun h => absurd h (same_cons_ne hne)
      · rintro ⟨⟨e, hfails⟩, _⟩
        rw [hturn] at hfails
        cases hfails
    · have hcaught : catches e = true := hcatch hx hfound (by rw [hturn])
      have hfails : Turn.Fails turn ⟨x, change x w, change x w⟩ := ⟨e, by rw [hturn]⟩
      simp only [batch, hturn, hcaught, same_cons]
      rw [ih hrest hfound]
      exact (and_iff_right hfails).symm

/-- A loop that catches what is raised does the same as one that does not, exactly when
in the latter nothing is left to do after the first turn that fails. -/
theorem batch_same_iff (ha : Attempts turn change I P) (hxs : ∀ x ∈ xs, P x) (hw : I w)
    (hcatch : ∀ {x w e}, P x → I w → (turn x w).1 = .error e → catches e = true) :
    (batch turn catches change true xs w).Same (batch turn (fun _ => false) change true xs w) ↔
      (batch turn (fun _ => false) change true xs w).turns.Pairwise
        fun t t' => t.Fails turn → t'.Fails turn := by
  induction xs generalizing w with
  | nil => simp [batch, Batch.Same]
  | cons x rest ih =>
    obtain ⟨hx, hrest⟩ := List.forall_mem_cons.mp hxs
    have hfound := ha.change x hw
    rcases ha.cases hx hfound with ⟨r, w', hturn, -, hw'⟩ | ⟨e, hturn⟩
    · simp only [batch, hturn, same_cons]
      rw [ih hrest hw']
      have hhead : ¬ Turn.Fails turn ⟨x, change x w, w'⟩ := by
        rintro ⟨e, hfails⟩
        rw [hturn] at hfails
        cases hfails
      simp [Batch.cons, hhead]
    · have hcaught : catches e = true := hcatch hx hfound (by rw [hturn])
      have hfails : Turn.Fails turn ⟨x, change x w, change x w⟩ := ⟨e, by rw [hturn]⟩
      simp only [batch, hturn, hcaught, same_cons]
      rw [batch_ended ha hrest hfound hcatch]
      simp only [Batch.cons, List.pairwise_cons, hfails, forall_const]
      refine ⟨fun h => ⟨h, ?_⟩, fun h => h.1⟩
      exact List.Pairwise.imp_of_mem (fun _ hy _ _ => h _ hy)
        (List.pairwise_of_forall fun _ _ => trivial)

/-- What is left is as it was found exactly where nothing was due. -/
def Turn.Heeds (due : α → W → Prop) (t : Turn α W) : Prop :=
  t.left = t.found ↔ ¬ due t.item t.found

theorem batch_ended_heeds {due : α → W → Prop} (ha : Attempts turn change I P)
    (hxs : ∀ x ∈ xs, P x) (hw : I w)
    (hcatch : ∀ {x w e}, P x → I w → (turn x w).1 = .error e → catches e = true)
    (hpatient : ∀ t ∈ (batch turn catches change true xs w).turns, t.Heeds due)
    (hended : ∀ t ∈ (batch turn strict change false xs w).turns, t.Heeds due) :
    (batch turn catches change true xs w).Same (batch turn strict change false xs w) := by
  induction xs generalizing w with
  | nil => exact ⟨rfl, rfl⟩
  | cons x rest ih =>
    obtain ⟨hx, hrest⟩ := List.forall_mem_cons.mp hxs
    have hfound := ha.change x hw
    obtain ⟨hhead, hended⟩ := List.forall_mem_cons.mp hended
    have hnot : ¬ due x (change x w) := hhead.mp rfl
    rcases ha.cases hx hfound with ⟨r, w', hturn, hmoved, -⟩ | ⟨e, hturn⟩
    · simp only [batch, hturn, Batch.cons] at hpatient
      have hleft : w' = change x w := (List.forall_mem_cons.mp hpatient).1.mpr hnot
      exact absurd hleft hmoved
    · have hcaught : catches e = true := hcatch hx hfound (by rw [hturn])
      simp only [batch, hturn, hcaught, Batch.cons] at hpatient
      simp only [batch, hturn, hcaught, same_cons]
      exact ih hrest hfound (List.forall_mem_cons.mp hpatient).2 hended

/-- Two loops that do what is due, and nothing else, do the same. -/
theorem batch_same_of_heeds {due : α → W → Prop} (ha : Attempts turn change I P)
    (hxs : ∀ x ∈ xs, P x) (hw : I w)
    (hcatch : ∀ {x w e}, P x → I w → (turn x w).1 = .error e → catches e = true)
    (hpatient : ∀ t ∈ (batch turn catches change true xs w).turns, t.Heeds due)
    (hstrict : ∀ t ∈ (batch turn (fun _ => false) change true xs w).turns, t.Heeds due) :
    (batch turn catches change true xs w).Same (batch turn (fun _ => false) change true xs w) := by
  induction xs generalizing w with
  | nil => exact ⟨rfl, rfl⟩
  | cons x rest ih =>
    obtain ⟨hx, hrest⟩ := List.forall_mem_cons.mp hxs
    have hfound := ha.change x hw
    rcases ha.cases hx hfound with ⟨r, w', hturn, -, hw'⟩ | ⟨e, hturn⟩
    · simp only [batch, hturn, Batch.cons] at hpatient hstrict
      simp only [batch, hturn, same_cons]
      exact ih hrest hw' (List.forall_mem_cons.mp hpatient).2
        (List.forall_mem_cons.mp hstrict).2
    · have hcaught : catches e = true := hcatch hx hfound (by rw [hturn])
      simp only [batch, hturn, hcaught, Batch.cons] at hpatient hstrict
      simp only [batch, hturn, hcaught, same_cons]
      exact batch_ended_heeds ha hrest hfound hcatch (List.forall_mem_cons.mp hpatient).2
        (List.forall_mem_cons.mp hstrict).2

end Rules

end Batches

section Loops
variable {S K E M R L C V α : Type} {sys : System S K E M R L C V}
variable {turn : α → World S M → Except E R × World S M} {catches : E → Bool}
variable {loop : List α → Nat → Task S E R L} {next : Nat → Task S E R L}

/-- What follows on an outcome. -/
def Task.after (sys : System S K E M R L C V) (ok : R → Task S E R L) (err : E → Task S E R L) :
    Except E R × World S M → Except E R × World S M
  | (.ok r, w) => (ok r).run sys w
  | (.error e, w) => (err e).run sys w

/-- The task makes the turns of a loop and counts those that succeed. -/
structure Loops (sys : System S K E M R L C V) (turn : α → World S M → Except E R × World S M)
    (catches : E → Bool) (loop : List α → Nat → Task S E R L) (next : Nat → Task S E R L) : Prop where
  nil : ∀ n, loop [] n = next n
  cons : ∀ x rest n w, (loop (x :: rest) n).run sys w =
    Task.after sys (fun _ => loop rest (n + 1))
      (fun e => if catches e then loop rest n else .fail e) (turn x w)

variable (turn catches) in
theorem batch_idle (xs : List α) (w : World S M) :
    (batch turn catches (fun _ w => w) false xs w).going = false ∧
      (batch turn catches (fun _ w => w) false xs w).last = w := by
  induction xs with
  | nil => exact ⟨rfl, rfl⟩
  | cons x rest ih => exact ih

/-- Run alone, such a task does what the loop does when nobody changes anything. -/
theorem Loops.run (h : Loops sys turn catches loop next) (xs : List α) (n : Nat) (w : World S M) :
    ((batch turn catches (fun _ w => w) true xs w).going = true →
      ∃ k, (loop xs n).run sys w =
        (next k).run sys (batch turn catches (fun _ w => w) true xs w).last) ∧
    ((batch turn catches (fun _ w => w) true xs w).going = false →
      ((loop xs n).run sys w).2 = (batch turn catches (fun _ w => w) true xs w).last) := by
  induction xs generalizing n w with
  | nil =>
    refine ⟨fun _ => ⟨n, ?_⟩, fun hended => by cases hended⟩
    rw [h.nil]
    rfl
  | cons x rest ih =>
    rw [h.cons]
    cases hturn : turn x w with
    | mk out w' =>
      cases out with
      | ok r =>
        simp only [batch, hturn, Batch.cons, Task.after]
        exact ih (n + 1) w'
      | error e =>
        simp only [batch, hturn, Batch.cons, Task.after]
        cases hcaught : catches e with
        | true => exact ih n w'
        | false =>
          obtain ⟨hended, hlast⟩ := batch_idle turn catches rest w'
          refine ⟨fun hgoing => ?_, fun _ => hlast.symm⟩
          rw [hended] at hgoing
          cases hgoing

/-- When nothing follows the loop, the task ends where the loop does. -/
theorem Loops.ends (h : Loops sys turn catches loop next)
    (hnext : ∀ k w, ((next k).run sys w).2 = w) (xs : List α) (n : Nat) (w : World S M) :
    ((loop xs n).run sys w).2 = (batch turn catches (fun _ w => w) true xs w).last := by
  obtain ⟨hon, hended⟩ := h.run xs n w
  cases hgoing : (batch turn catches (fun _ w => w) true xs w).going with
  | true =>
    obtain ⟨k, hk⟩ := hon hgoing
    rw [hk, hnext]
  | false => exact hended hgoing

/-- The turns work on parts of the world: where the part of its item is `ready`, a turn
succeeds, changes that part as `done` says, and no other. -/
structure Finishes {K D : Type} (turn : α → World S M → Except E R × World S M) (key : α → K)
    (part : World S M → K → D) (I : World S M → Prop) (ready : α → D → Prop)
    (done : α → D → D → Prop) : Prop where
  made : ∀ {x w}, I w → ready x (part w (key x)) → ∃ r w', turn x w = (.ok r, w') ∧ I w' ∧
    done x (part w (key x)) (part w' (key x)) ∧ ∀ k, k ≠ key x → part w' k = part w k

/-- Then a loop over different parts that are all ready finishes each of them. -/
theorem Loops.finish {K D : Type} {key : α → K} {part : World S M → K → D} {I : World S M → Prop}
    {ready : α → D → Prop} {done : α → D → D → Prop} (h : Loops sys turn catches loop next)
    (hfinishes : Finishes turn key part I ready done) {xs : List α} {n : Nat} {w : World S M}
    (hkeys : (xs.map key).Nodup) (hw : I w) (hready : ∀ x ∈ xs, ready x (part w (key x))) :
    ∃ w', (loop xs n).run sys w = (next (n + xs.length)).run sys w' ∧ I w' ∧
      (∀ x ∈ xs, done x (part w (key x)) (part w' (key x))) ∧
      ∀ k, k ∉ xs.map key → part w' k = part w k := by
  induction xs generalizing n w with
  | nil =>
    refine ⟨w, ?_, hw, nofun, fun _ _ => rfl⟩
    rw [h.nil]
    rfl
  | cons x rest ih =>
    obtain ⟨hx, hrest⟩ := List.nodup_cons.mp hkeys
    obtain ⟨hhead, htail⟩ := List.forall_mem_cons.mp hready
    obtain ⟨r, w', hturn, hw', hdone, hothers⟩ := hfinishes.made hw hhead
    -- The other items find their parts as they were.
    have hkeep : ∀ y ∈ rest, part w' (key y) = part w (key y) := fun y hy =>
      hothers _ fun he => hx (he ▸ List.mem_map_of_mem hy)
    obtain ⟨w'', hrun, hw'', hall, hframe⟩ := ih (n := n + 1) hrest hw' fun y hy => by
      rw [hkeep y hy]
      exact htail y hy
    refine ⟨w'', ?_, hw'', ?_, ?_⟩
    · rw [h.cons, hturn, List.length_cons, Nat.add_comm rest.length, ← Nat.add_assoc]
      exact hrun
    · refine List.forall_mem_cons.mpr ⟨?_, fun y hy => ?_⟩
      · rw [hframe _ hx]
        exact hdone
      · rw [← hkeep y hy]
        exact hall y hy
    · intro k hk
      rw [List.map_cons, List.mem_cons, not_or] at hk
      rw [hframe k hk.2, hothers k hk.1]

end Loops

end Transactions
