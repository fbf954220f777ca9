import Mathlib.Data.List.Nodup

namespace Queries

section Keyed
variable {α κ β : Type} [DecidableEq κ] {key : α → κ} {k : κ} {f : α → α} {rows : List α}

/-- `UPDATE ... WHERE key = k`. -/
def updateKey (key : α → κ) (k : κ) (f : α → α) (rows : List α) : List α :=
  rows.map (fun r => if key r = k then f r else r)

/-- An update leaves alone every column that it does not write. -/
theorem map_updateKey (g : α → β) (hg : ∀ r, g (f r) = g r) :
    (updateKey key k f rows).map g = rows.map g := by
  simp only [updateKey, List.map_map]
  refine List.map_congr_left fun r _ => ?_
  simp only [Function.comp]
  split
  · exact hg r
  · rfl

theorem mem_updateKey {r : α} :
    r ∈ updateKey key k f rows ↔ ∃ x ∈ rows, r = if key x = k then f x else x := by
  simp only [updateKey, List.mem_map, eq_comm]

theorem updateKey_absent (h : ∀ r ∈ rows, key r ≠ k) : updateKey key k f rows = rows := by
  unfold updateKey
  conv_rhs => rw [← List.map_id rows]
  refine List.map_congr_left fun r hr => ?_
  rw [if_neg (h r hr), id_eq]

/-- A lookup after an update that keeps the keys. -/
theorem find_updateKey (hf : ∀ r, key (f r) = key r) (k' : κ) :
    (updateKey key k f rows).find? (fun r => key r = k') =
      (rows.find? (fun r => key r = k')).map (fun r => if key r = k then f r else r) := by
  rw [updateKey, List.find?_map]
  congr 1
  refine congrArg (fun g => rows.find? g) (funext fun r => ?_)
  by_cases hr : key r = k <;> simp [hr, hf]

theorem find_key {x : α} (h : rows.find? (fun r => key r = k) = some x) : x ∈ rows ∧ key x = k := by
  have hk := List.find?_some h
  exact ⟨List.mem_of_find?_eq_some h, by simpa using hk⟩

theorem find_of_key {x : α} (hn : (rows.map key).Nodup) (hx : x ∈ rows) :
    rows.find? (fun r => key r = key x) = some x := by
  cases hf : rows.find? (fun r => key r = key x) with
  | none =>
    have hne := List.find?_eq_none.mp hf x hx
    simp at hne
  | some y =>
    obtain ⟨hy, hk⟩ := find_key hf
    rw [List.inj_on_of_nodup_map hn hy hx hk]

/-- Under a unique key the update rewrites one row, and a count changes with it. -/
theorem countP_updateKey (p : α → Bool) {x : α} (hn : (rows.map key).Nodup) (hx : x ∈ rows)
    (hk : key x = k) : (updateKey key k f rows).countP p + (if p x then 1 else 0) =
      rows.countP p + (if p (f x) then 1 else 0) := by
  induction rows with
  | nil => cases hx
  | cons r rest ih =>
    rw [List.map_cons, List.nodup_cons] at hn
    obtain ⟨hr, hrest⟩ := hn
    rcases List.mem_cons.mp hx with rfl | hx
    · have habsent : updateKey key k f rest = rest := by
        refine updateKey_absent fun y hy he => hr ?_
        rw [hk, ← he]
        exact List.mem_map_of_mem hy
      have hcons : updateKey key k f (x :: rest) = f x :: rest := by
        simp only [updateKey, List.map_cons, if_pos hk] at habsent ⊢
        rw [habsent]
      rw [hcons, List.countP_cons, List.countP_cons]
      omega
    · have hne : key r ≠ k := by
        intro he
        rw [he, ← hk] at hr
        exact hr (List.mem_map_of_mem hx)
      have hcons : updateKey key k f (r :: rest) = r :: updateKey key k f rest := by
        simp only [updateKey, List.map_cons, if_neg hne]
      have := ih hrest hx
      rw [hcons, List.countP_cons, List.countP_cons]
      omega

/-- Every row is still found under its key, and has only moved along `R`. -/
def Carried (key : α → κ) (R : α → α → Prop) (rows rows' : List α) : Prop :=
  ∀ x ∈ rows, ∃ y, rows'.find? (fun r => key r = key x) = some y ∧ R x y

theorem Carried.refl {R : α → α → Prop} (hn : (rows.map key).Nodup) (hR : ∀ x, R x x) :
    Carried key R rows rows :=
  fun x hx => ⟨x, find_of_key hn hx, hR x⟩

theorem Carried.trans {R : α → α → Prop} (htrans : ∀ {x y z}, R x y → R y z → R x z)
    {rows' rows'' : List α} (h : Carried key R rows rows') (h' : Carried key R rows' rows'') :
    Carried key R rows rows'' := by
  intro x hx
  obtain ⟨y, hy, hxy⟩ := h x hx
  obtain ⟨hmem, hkey⟩ := find_key hy
  obtain ⟨z, hz, hyz⟩ := h' y hmem
  rw [hkey] at hz
  exact ⟨z, hz, htrans hxy hyz⟩

/-- New rows come after the old ones. -/
theorem carried_append {R : α → α → Prop} (hn : (rows.map key).Nodup) (hR : ∀ x, R x x)
    (more : List α) : Carried key R rows (rows ++ more) := by
  intro x hx
  refine ⟨x, ?_, hR x⟩
  rw [List.find?_append, find_of_key hn hx, Option.some_or]

theorem carried_updateKey {R : α → α → Prop} (hn : (rows.map key).Nodup) (hR : ∀ x, R x x)
    (hf : ∀ r, key (f r) = key r) (hupdate : ∀ x ∈ rows, key x = k → R x (f x)) :
    Carried key R rows (updateKey key k f rows) := by
  intro x hx
  rw [find_updateKey hf, find_of_key hn hx]
  refine ⟨_, rfl, ?_⟩
  beta_reduce
  split
  · exact hupdate x hx ‹_›
  · exact hR x

/-- The column `col` of the row under the key `k`. -/
def column (key : α → κ) (col : α → β) (rows : List α) (k : κ) : Option β :=
  (rows.find? (fun r => key r = k)).map col

/-- New rows fill in no column under an old key. -/
theorem column_append {col : α → β} {more : List α}
    (h : column key col (rows ++ more) k ≠ column key col rows k) : k ∈ more.map key := by
  unfold column at h
  rw [List.find?_append] at h
  cases hold : rows.find? (fun r => key r = k) with
  | some x =>
    rw [hold, Option.some_or] at h
    exact absurd rfl h
  | none =>
    rw [hold, Option.none_or] at h
    cases hnew : more.find? (fun r => key r = k) with
    | none =>
      rw [hnew] at h
      exact absurd rfl h
    | some x =>
      obtain ⟨hx, rfl⟩ := find_key hnew
      exact List.mem_map_of_mem hx

/-- An update changes no column under another key. -/
theorem column_update {col : α → β} {k' : κ} (hf : ∀ r, key (f r) = key r)
    (h : column key col (updateKey key k f rows) k' ≠ column key col rows k') : k' = k := by
  by_contra hne
  apply h
  unfold column
  rw [find_updateKey hf, Option.map_map]
  cases hfound : rows.find? (fun r => key r = k') with
  | none => rfl
  | some x =>
    have hother : key x ≠ k := by
      rw [(find_key hfound).2]
      exact hne
    simp only [Option.map_some, Function.comp, if_neg hother]

end Keyed

section Renamed
variable {κ κ' β : Type} [DecidableEq κ] [DecidableEq κ']

/-- A dictionary answers the same under new names, if no other key takes the name asked for. -/
theorem lookup_renamed {ρ : κ → κ'} {table : List (κ × β)} {k : κ}
    (hinj : ∀ x ∈ table, ρ x.1 = ρ k → x.1 = k) :
    (table.map (Prod.map ρ id)).lookup (ρ k) = table.lookup k := by
  induction table with
  | nil => rfl
  | cons x rest ih =>
    obtain ⟨j, b⟩ := x
    obtain ⟨hj, hrest⟩ := List.forall_mem_cons.mp hinj
    have hsame : (ρ k == ρ j) = (k == j) := by
      by_cases he : k = j
      · simp [he]
      · have hne : ρ k ≠ ρ j := fun h => he (hj h.symm).symm
        simp [he, hne]
    rw [List.map_cons, Prod.map_apply, List.lookup_cons, List.lookup_cons, hsame, ih hrest]
    rfl

end Renamed

section Numbered
variable {κ β : Type} [DecidableEq κ] {g : Nat → β} {keys : List κ} {k : κ}

/-- A dictionary that was given the keys `keys` in this order, each with a value by its place. -/
def numbered (g : Nat → β) (keys : List κ) (n : Nat) : List (κ × β) :=
  (keys.zipIdx n).map (Prod.map id g)

omit [DecidableEq κ] in
theorem numbered_append (keys : List κ) (k : κ) :
    numbered g (keys ++ [k]) 0 = numbered g keys 0 ++ [(k, g keys.length)] := by
  simp [numbered, List.zipIdx_append]

theorem lookup_numbered (hk : k ∈ keys) (n : Nat) :
    (numbered g keys n).lookup k = some (g (n + keys.idxOf k)) := by
  induction keys generalizing n with
  | nil => cases hk
  | cons j rest ih =>
    rw [numbered, List.zipIdx_cons, List.map_cons, Prod.map_apply, List.lookup_cons]
    by_cases he : k = j
    · subst he
      simp
    · have hrest : k ∈ rest := (List.mem_cons.mp hk).resolve_left he
      have hfound := ih hrest (n + 1)
      rw [numbered] at hfound
      have hne : (k == id j) = false := by simpa using he
      simp only [hne]
      rw [hfound, List.idxOf_cons_ne _ (Ne.symm he)]
      congr 2
      omega

theorem lookup_numbered_none (hk : k ∉ keys) (n : Nat) : (numbered g keys n).lookup k = none := by
  induction keys generalizing n with
  | nil => rfl
  | cons j rest ih =>
    rw [List.mem_cons, not_or] at hk
    have hne : (k == id j) = false := by simpa using hk.1
    rw [numbered, List.zipIdx_cons, List.map_cons, Prod.map_apply, List.lookup_cons]
    simp only [hne]
    exact ih hk.2 (n + 1)

/-- What comes after the first `n` keys. -/
theorem mem_drop_iff (hn : keys.Nodup) {n : Nat} : k ∈ keys.drop n ↔ k ∈ keys ∧ n ≤ keys.idxOf k := by
  constructor
  · intro hk
    refine ⟨List.mem_of_mem_drop hk, ?_⟩
    by_contra hlt
    have htake : k ∈ keys.take n := by
      rw [List.mem_take_iff_getElem]
      have hmem := List.idxOf_lt_length_of_mem (List.mem_of_mem_drop hk)
      exact ⟨keys.idxOf k, by omega, List.getElem_idxOf hmem⟩
    exact List.disjoint_take_drop hn (Nat.le_refl n) htake hk
  · rintro ⟨hk, hle⟩
    rw [List.mem_drop_iff_getElem]
    have hmem := List.idxOf_lt_length_of_mem hk
    refine ⟨keys.idxOf k - n, by omega, ?_⟩
    simp only [Nat.add_sub_cancel' hle, List.getElem_idxOf hmem]

end Numbered

end Queries
