import Mathlib.Data.List.Sort

namespace Queries

/-- `ORDER BY ... LIMIT 1`: the row that no other row of the list is `before`. -/
def firstBy {α : Type} (before : α → α → Bool) : List α → Option α
  | [] => none
  | x :: xs =>
    match firstBy before xs with
    | none => some x
    | some y => if before y x then some y else some x

/-- An order by sort keys: rows may tie, and ties do not depend on third rows. -/
structure Ranking {α : Type} (before : α → α → Bool) : Prop where
  asymm : ∀ x y, before x y → ¬ before y x
  split : ∀ x y z, before x z → before x y ∨ before y z

section First
variable {α : Type} {before : α → α → Bool} {xs : List α} {m : α}

theorem firstBy_eq_none : firstBy before xs = none ↔ xs = [] := by
  cases xs with
  | nil => simp [firstBy]
  | cons x xs =>
    simp only [firstBy, reduceCtorEq, iff_false]
    split
    · simp
    · split <;> simp

theorem firstBy_mem (h : firstBy before xs = some m) : m ∈ xs := by
  induction xs generalizing m with
  | nil => simp [firstBy] at h
  | cons x xs ih =>
    simp only [firstBy] at h
    cases hf : firstBy before xs with
    | none =>
      simp only [hf, Option.some.injEq] at h
      subst h
      exact List.mem_cons_self ..
    | some y =>
      simp only [hf] at h
      split at h
      · cases h
        exact List.mem_cons_of_mem _ (ih hf)
      · cases h
        exact List.mem_cons_self ..

/-- No row comes before the first one. -/
theorem firstBy_first (hr : Ranking before) (h : firstBy before xs = some m) :
    ∀ y ∈ xs, ¬ before y m := by
  induction xs generalizing m with
  | nil => simp [firstBy] at h
  | cons x xs ih =>
    have hirrefl : ∀ y, ¬ before y y := fun y hy => hr.asymm y y hy hy
    simp only [firstBy] at h
    cases hf : firstBy before xs with
    | none =>
      simp only [hf, Option.some.injEq] at h
      subst h
      rw [firstBy_eq_none] at hf
      intro y hy
      rw [hf, List.mem_singleton] at hy
      subst hy
      exact hirrefl y
    | some z =>
      simp only [hf] at h
      split at h
      · rename_i hz
        cases h
        intro y hy
        rcases List.mem_cons.mp hy with rfl | hy
        · exact hr.asymm _ y hz
        · exact ih hf y hy
      · rename_i hz
        cases h
        intro y hy
        rcases List.mem_cons.mp hy with rfl | hy
        · exact hirrefl y
        · intro hb
          rcases hr.split y z _ hb with h' | h'
          · exact ih hf y hy h'
          · exact hz h'

/-- The first row is the only candidate. -/
theorem firstBy_eq_some (hr : Ranking before) (hm : m ∈ xs)
    (hfirst : ∀ y ∈ xs, y ≠ m → before m y) : firstBy before xs = some m := by
  cases hf : firstBy before xs with
  | none =>
    rw [firstBy_eq_none] at hf
    simp [hf] at hm
  | some z =>
    by_cases hz : z = m
    · rw [hz]
    · exact absurd (hfirst z (firstBy_mem hf) hz) (firstBy_first hr hf m hm)

end First

section Sorted
variable {α : Type} {r : α → α → Prop} [DecidableRel r] {xs ys : List α} {x : α}

/-- A row that is not after the rows of `ys` finds its place before them. -/
theorem orderedInsert_append (h : ∀ y ∈ ys, r x y) :
    (xs ++ ys).orderedInsert r x = xs.orderedInsert r x ++ ys := by
  induction xs with
  | nil =>
    cases ys with
    | nil => rfl
    | cons y ys =>
      rw [List.nil_append, List.orderedInsert_nil, List.orderedInsert_cons,
        if_pos (h y List.mem_cons_self)]
      rfl
  | cons z xs ih =>
    rw [List.cons_append, List.orderedInsert_cons, List.orderedInsert_cons, ih]
    split <;> rfl

/-- Rows that come after all the others are sorted among themselves. -/
theorem insertionSort_append (h : ∀ x ∈ xs, ∀ y ∈ ys, r x y) :
    (xs ++ ys).insertionSort r = xs.insertionSort r ++ ys.insertionSort r := by
  induction xs with
  | nil => rfl
  | cons x xs ih =>
    obtain ⟨hx, hxs⟩ := List.forall_mem_cons.mp h
    rw [List.cons_append, List.insertionSort_cons, List.insertionSort_cons, ih hxs]
    apply orderedInsert_append
    intro y hy
    exact hx y ((List.mem_insertionSort r).mp hy)

/-- A row keeps its place when other rows are left out. -/
theorem orderedInsert_filter [IsTrans α r] (p : α → Bool) (h : ys.Pairwise r) :
    (ys.orderedInsert r x).filter p =
      if p x then (ys.filter p).orderedInsert r x else ys.filter p := by
  induction ys with
  | nil => rw [List.orderedInsert_nil, List.filter_cons]; rfl
  | cons y ys ih =>
    obtain ⟨hy, hys⟩ := List.pairwise_cons.mp h
    rw [List.orderedInsert_cons]
    by_cases hxy : r x y
    · have hall : ∀ z ∈ (y :: ys).filter p, r x z := by
        intro z hz
        rcases List.mem_cons.mp (List.mem_filter.mp hz).1 with rfl | hz
        · exact hxy
        · exact IsTrans.trans x y z hxy (hy z hz)
      have hfirst : ((y :: ys).filter p).orderedInsert r x = x :: (y :: ys).filter p :=
        @orderedInsert_append α r _ [] _ x hall
      rw [if_pos hxy, List.filter_cons, hfirst]
    · rw [if_neg hxy, List.filter_cons, List.filter_cons, ih hys]
      by_cases hp : p y = true
      · rw [if_pos hp, if_pos hp, List.orderedInsert_cons, if_neg hxy]
        split <;> rfl
      · rw [if_neg hp, if_neg hp]

/-- Sorting and leaving rows out can change places. -/
theorem insertionSort_filter [Std.Total r] [IsTrans α r] (p : α → Bool) :
    (xs.insertionSort r).filter p = (xs.filter p).insertionSort r := by
  induction xs with
  | nil => rfl
  | cons x xs ih =>
    rw [List.insertionSort_cons, orderedInsert_filter p (List.pairwise_insertionSort r xs), ih,
      List.filter_cons]
    split <;> rfl

end Sorted

end Queries
