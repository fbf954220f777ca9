import Mathlib.Algebra.BigOperators.Group.Finset.Piecewise
import Mathlib.Algebra.Order.Ring.Nat
import Mathlib.Data.List.Dedup
import Mathlib.Data.List.ReduceOption

namespace Queries

/-- `GROUP BY`: every key that occurs, with its rows. -/
def groups {α κ : Type} [DecidableEq κ] (key : α → κ) (rows : List α) : List (κ × List α) :=
  (rows.map key).dedup.map fun k => (k, rows.filter fun x => key x = k)

/-- `SUM`: null where there is nothing to add. -/
def sumOf {M : Type} [AddCommMonoid M] (values : List (Option M)) : Option M :=
  if values.reduceOption.isEmpty then none else some values.reduceOption.sum

section Groups
variable {α κ M : Type} [DecidableEq κ] [AddCommMonoid M] {key : α → κ} {rows : List α}
  {ks : List κ} {k : κ}

/-- Rows are added up key by key, for any keys that all of them have one of. -/
theorem sum_by_key (hn : ks.Nodup) (hks : ∀ x ∈ rows, key x ∈ ks) (f : α → M) :
    (ks.map fun k => ((rows.filter fun x => key x = k).map f).sum).sum = (rows.map f).sum := by
  induction rows with
  | nil => simp
  | cons x xs ih =>
    obtain ⟨hx, hxs⟩ := List.forall_mem_cons.mp hks
    have hstep : ∀ k, (((x :: xs).filter fun y => key y = k).map f).sum =
        (if key x = k then f x else 0) + ((xs.filter fun y => key y = k).map f).sum := by
      intro k
      by_cases hk : key x = k
      · simp [hk]
      · simp [hk]
    have hone : (ks.map fun k => if key x = k then f x else 0).sum = f x := by
      rw [← List.sum_toFinset _ hn, Finset.sum_ite_eq, if_pos (List.mem_toFinset.mpr hx)]
    rw [List.map_congr_left fun k _ => hstep k, List.sum_map_add, hone, ih hxs, List.map_cons,
      List.sum_cons]

theorem length_by_key (hn : ks.Nodup) (hks : ∀ x ∈ rows, key x ∈ ks) :
    (ks.map fun k => (rows.filter fun x => key x = k).length).sum = rows.length := by
  have hsum := sum_by_key hn hks fun _ => 1
  simpa only [List.map_const', List.sum_replicate, Nat.nsmul_eq_mul, mul_one] using hsum

/-- The groups hold every row once. -/
theorem sum_groups (key : α → κ) (p : α → Bool) (f : α → M) :
    ((groups key rows).map fun g => ((g.2.filter p).map f).sum).sum =
      ((rows.filter p).map f).sum := by
  have hkeys : ∀ x ∈ rows.filter p, key x ∈ (rows.map key).dedup := by
    intro x hx
    exact List.mem_dedup.mpr (List.mem_map_of_mem (List.mem_filter.mp hx).1)
  rw [← sum_by_key (List.nodup_dedup _) hkeys f, groups, List.map_map]
  congr 1
  apply List.map_congr_left
  intro k _
  rw [Function.comp_apply, List.filter_comm]

theorem length_groups (key : α → κ) (p : α → Bool) :
    ((groups key rows).map fun g => (g.2.filter p).length).sum = (rows.filter p).length := by
  have hsum : ((groups key rows).map fun g => ((g.2.filter p).map fun _ => 1).sum).sum =
      ((rows.filter p).map fun _ => 1).sum := sum_groups key p fun _ => 1
  simpa only [List.map_const', List.sum_replicate, Nat.nsmul_eq_mul, mul_one] using hsum

/-- The number of rows in the group of a key, which may not be there. -/
theorem lookup_groups_length :
    (((groups key rows).lookup k).map List.length).getD 0 =
      (rows.filter fun x => key x = k).length := by
  by_cases hk : k ∈ rows.map key
  · have hfound : (groups key rows).lookup k = some (rows.filter fun x => key x = k) :=
      List.lookup_graph _ (List.mem_dedup.mpr hk)
    rw [hfound]
    rfl
  · have hmissing : (groups key rows).lookup k = none := by
      rw [groups, List.lookup_eq_none_iff]
      intro g hg
      obtain ⟨k', hk', rfl⟩ := List.mem_map.mp hg
      rw [List.mem_dedup] at hk'
      rw [bne_iff_ne]
      intro heq
      subst heq
      exact hk hk'
    have hempty : (rows.filter fun x => key x = k) = [] := by
      rw [List.filter_eq_nil_iff]
      intro x hx hkey
      apply hk
      rw [← of_decide_eq_true hkey]
      exact List.mem_map_of_mem hx
    rw [hmissing, hempty]
    rfl

end Groups

/-- Two conditions of which no row meets both split the rows that meet one of them. -/
theorem filter_either {α : Type} {rows : List α} {p q r : α → Bool}
    (heither : ∀ x ∈ rows, r x = (p x || q x)) (hapart : ∀ x ∈ rows, p x = true → q x = false) :
    (rows.filter r).Perm (rows.filter p ++ rows.filter q) := by
  have hfirst : (rows.filter r).filter p = rows.filter p := by
    rw [List.filter_filter]
    refine List.filter_congr fun x hx => ?_
    rw [heither x hx]
    cases p x <;> rfl
  have hsecond : ((rows.filter r).filter fun x => !p x) = rows.filter q := by
    rw [List.filter_filter]
    refine List.filter_congr fun x hx => ?_
    rw [heither x hx]
    cases hp : p x with
    | true => rw [hapart x hx hp]; rfl
    | false => rfl
  have hsplit := (List.filter_append_perm p (rows.filter r)).symm
  rwa [hfirst, hsecond] at hsplit

/-- The same rows of two states, where each has the same columns. -/
theorem select_congr {α β : Type} {rows : List α} {p q : α → Bool} {f g : α → β}
    (hrows : ∀ x ∈ rows, (p x = true ↔ q x = true)) (hcols : ∀ x ∈ rows, p x = true → f x = g x) :
    (rows.filter p).map f = (rows.filter q).map g := by
  have hsame : rows.filter p = rows.filter q :=
    List.filter_congr fun x hx => Bool.eq_iff_iff.mpr (hrows x hx)
  rw [← hsame]
  apply List.map_congr_left
  intro x hx
  rw [List.mem_filter] at hx
  exact hcols x hx.1 hx.2

/-- A sum that counts as zero where it is null. -/
theorem sumOf_getD {M : Type} [AddCommMonoid M] (values : List (Option M)) :
    (sumOf values).getD 0 = (values.map fun v => v.getD 0).sum := by
  have hsum : values.reduceOption.sum = (values.map fun v => v.getD 0).sum := by
    induction values with
    | nil => rfl
    | cons v vs ih =>
      cases v with
      | none => simpa using ih
      | some m => simp [ih]
  unfold sumOf
  split
  · rename_i hempty
    rw [← hsum, List.isEmpty_iff.mp hempty]
    rfl
  · exact hsum

end Queries
