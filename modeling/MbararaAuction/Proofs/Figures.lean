import MbararaAuction.Model.Reports

namespace MbararaAuction
open Queries Decimals

section Sums
variable {tables : ReportTables} {auctions : List AuctionId} {payments : List (AuctionId × Payment)}

theorem priceSum_eq : priceSum tables auctions =
    (auctions.map fun a => (tables.row a).finalPrice.getD 0).sum := by
  rw [priceSum, sumOf_getD, List.map_map]
  rfl

theorem amountSum_eq : amountSum payments = (payments.map fun x => x.2.amount).sum := by
  rw [amountSum, sumOf_getD, List.map_map]
  rfl

/-- So many prices that fit their column. -/
theorem priceSum_le (h : ∀ a ∈ auctions, a ∈ tables.auctionPks) :
    (priceSum tables auctions).natAbs ≤ auctions.length * 10 ^ 14 := by
  rw [priceSum_eq]
  induction auctions with
  | nil => simp
  | cons a rest ih =>
    obtain ⟨ha, hrest⟩ := List.forall_mem_cons.mp h
    have hsum := ih hrest
    have hprice : ((tables.row a).finalPrice.getD 0).natAbs ≤ 10 ^ 14 := by
      cases hfinal : (tables.row a).finalPrice with
      | none => simp
      | some m => exact (tables.pricesFit a ha m hfinal).le
    rw [List.map_cons, List.sum_cons, List.length_cons, Nat.add_one_mul]
    have hadd := Int.natAbs_add_le ((tables.row a).finalPrice.getD 0)
      (rest.map fun a => (tables.row a).finalPrice.getD 0).sum
    omega

end Sums

section Quotients
variable {m n : Nat} {salesValue : Money}

theorem ratio_none : ratio m n = none ↔ n = 0 := by
  unfold ratio
  split
  · rename_i hn
    exact iff_of_true rfl hn
  · rename_i hn
    exact iff_of_false (Option.some_ne_none _) hn

/-- Neither rounding leaves the range of a percentage. -/
theorem ratio_percent {r : ℚ} (hle : m ≤ n) (h : ratio (100 * m) n = some r) : 0 ≤ r ∧ r ≤ 100 := by
  unfold ratio at h
  split at h
  · cases h
  · rename_i hn
    have hpos : (0 : ℚ) < n := by exact_mod_cast Nat.pos_of_ne_zero hn
    have hm : (m : ℚ) ≤ n := by exact_mod_cast hle
    rw [Option.some.injEq] at h
    push_cast at h
    have hquot : 0 ≤ (100 * m / n : ℚ) := by positivity
    have hquot' : (100 * m / n : ℚ) ≤ (100 : Nat) := by
      rw [div_le_iff₀ hpos]
      push_cast
      linarith
    obtain ⟨hfloat, hfloat'⟩ := significant_bounds 2 53 (by decide) hquot hquot' (by decide)
    have hunit : (0 : ℚ) < 1 / 10 := by norm_num
    have htenth := toUnit_nonneg hunit hfloat
    have htenth' := toUnit_le (n := 1000) hunit (hfloat'.trans_eq (by norm_num))
    obtain ⟨hlast, hlast'⟩ := significant_bounds 2 53 (n := 100) (by decide) htenth
      (htenth'.trans_eq (by norm_num)) (by decide)
    rw [← h]
    exact ⟨hlast, hlast'⟩

theorem average_none {v : Option Money} (h : average salesValue n = .ok v) : v = none ↔ n = 0 := by
  unfold average at h
  split at h
  · rename_i hn
    cases h
    exact iff_of_true rfl hn
  · rename_i hn
    simp only at h
    split at h
    · cases h
      exact iff_of_false (Option.some_ne_none _) hn
    · cases h

/-- The average of prices that fit their column is not too long for the context. -/
theorem average_ok (h : salesValue.natAbs ≤ n * 10 ^ 14) : ∃ v, average salesValue n = .ok v := by
  unfold average
  split
  · exact ⟨none, rfl⟩
  · rename_i hn
    have hpos : (0 : ℚ) < n := by exact_mod_cast Nat.pos_of_ne_zero hn
    have hvalue : |(salesValue : ℚ)| ≤ n * 10 ^ 14 := by
      rw [← Int.cast_abs, Int.abs_eq_natAbs]
      exact_mod_cast h
    have hquot : |(salesValue / 100 / n : ℚ)| ≤ (10 ^ 12 : Nat) := by
      rw [abs_div, abs_div, abs_of_pos hpos, div_le_iff₀ hpos, div_le_iff₀ (by norm_num)]
      push_cast
      norm_num at hvalue ⊢
      linarith
    have hround := abs_le.mp (significant_abs_le 10 28 (by decide) hquot
      (by decide))
    obtain ⟨hlow, hhigh⟩ := hround
    push_cast at hlow hhigh
    have hle : nearest (significant 10 28 (salesValue / 100 / n) * 100) ≤ 10 ^ 14 := by
      apply nearest_le
      push_cast
      linarith
    have hge : -10 ^ 14 ≤ nearest (significant 10 28 (salesValue / 100 / n) * 100) := by
      apply le_nearest
      push_cast
      linarith
    simp only
    rw [if_pos (by omega)]
    exact ⟨_, rfl⟩

end Quotients

section Rows
variable {server : ReportServer} {tables : ReportTables} {auctions : List AuctionId}
  {payments : List (AuctionId × Payment)}

/-- Leaving out the zeros does not change a sum. -/
theorem sum_nonzero {α : Type} (label : α → String) (n : α → Nat) (ks : List α) :
    ((ks.filterMap fun k => if n k = 0 then none else some (label k, n k)).map Prod.snd).sum =
      (ks.map n).sum := by
  induction ks with
  | nil => rfl
  | cons k rest ih =>
    by_cases hn : n k = 0
    · simpa [hn] using ih
    · simp [hn, ih]

theorem statusRows_sum : ((statusRows tables auctions).map Prod.snd).sum = auctions.length := by
  simp only [statusRows, lookup_groups_length]
  rw [sum_nonzero Status.display fun status =>
    (auctions.filter fun a => (tables.row a).status = status).length]
  apply length_by_key
  · decide
  · intro a _
    cases (tables.row a).status <;> decide

theorem paymentRows_sum : ((paymentRows payments).map PaymentRow.amount).sum =
    (payments.map fun x => x.2.amount).sum := by
  simp only [paymentRows, List.map_map, Function.comp_def, amountSum_eq]
  apply sum_by_key
  · decide
  · intro x _
    cases x.2.status <;> decide

/-- The row of a payment status. -/
theorem paymentRows_find (status : PaymentStatus) :
    ((paymentRows payments).find? fun row => row.label = status.display).map PaymentRow.amount =
      some (amountSum (payments.filter fun x => x.2.status = status)) := by
  cases status <;> rfl

theorem categoryRows_perm : (categoryRows server tables auctions).Perm
    ((groups (fun a => tables.categoryName (tables.row a).category) auctions).map fun g =>
      categoryRow tables g.1 g.2) :=
  List.mergeSort_perm _ _

theorem categoryRows_total :
    ((categoryRows server tables auctions).map CategoryRow.total).sum = auctions.length := by
  rw [(categoryRows_perm.map _).sum_eq, List.map_map]
  have hlength : ((groups (fun a => tables.categoryName (tables.row a).category) auctions).map
      fun g => (g.2.filter fun _ => true).length).sum = (auctions.filter fun _ => true).length :=
    length_groups _ _
  simpa only [List.filter_true, Function.comp_def, categoryRow] using hlength

theorem categoryRows_sold : ((categoryRows server tables auctions).map CategoryRow.sold).sum =
    (auctions.filter fun a => (tables.row a).sold).length := by
  rw [(categoryRows_perm.map _).sum_eq, List.map_map]
  exact length_groups _ _

theorem categoryRows_value : ((categoryRows server tables auctions).map CategoryRow.value).sum =
    priceSum tables (auctions.filter fun a => (tables.row a).sold) := by
  rw [(categoryRows_perm.map _).sum_eq, List.map_map, priceSum_eq,
    ← sum_groups fun a => tables.categoryName (tables.row a).category]
  simp only [Function.comp_def, categoryRow, priceSum_eq]

theorem finished_sold : ((auctions.filter fun a => (tables.row a).finished).filter fun a =>
    (tables.row a).winner.isSome) = auctions.filter fun a => (tables.row a).sold := by
  rw [List.filter_filter]
  apply List.filter_congr
  intro a _
  rw [Auction.sold, Bool.and_comm]

end Rows

section Figures
variable {server : ReportServer} {tables : ReportTables} {x : Selection} {s : Summary}

/-- The figures of a summary agree with each other, and with the payments it is about. -/
structure Reconciles (payments : List (AuctionId × Payment)) (s : Summary) : Prop where
  statuses : (s.statusRows.map Prod.snd).sum = s.totalAuctions
  finished : (s.finishedCount : Int) = s.soldCount + s.unsoldCount
  totals : (s.categoryRows.map CategoryRow.total).sum = s.totalAuctions
  sold : (s.categoryRows.map CategoryRow.sold).sum = s.soldCount
  values : (s.categoryRows.map CategoryRow.value).sum = s.salesValue
  amounts : (s.paymentRows.map PaymentRow.amount).sum = (payments.map fun x => x.2.amount).sum
  collected : (s.paymentRows.find? fun row => row.label = "Paid").map PaymentRow.amount =
    some s.collected
  outstanding : (s.paymentRows.find? fun row => row.label = "Pending").map PaymentRow.amount =
    some s.outstanding
  percent : ∀ rate ∈ s.sellThrough, 0 ≤ rate ∧ rate ≤ 100
  rate_none : s.sellThrough = none ↔ s.finishedCount = 0
  average_none : s.averageSale = none ↔ s.soldCount = 0

/-- There are figures for any rows of the tables. -/
theorem figures_ok (server : ReportServer) (h : ∀ a ∈ x.auctions, a ∈ tables.auctionPks) :
    ∃ s, figures server tables x = .ok s := by
  obtain ⟨v, hv⟩ : ∃ v, average (priceSum tables (x.auctions.filter fun a => (tables.row a).sold))
      (x.auctions.filter fun a => (tables.row a).sold).length = .ok v := by
    apply average_ok
    apply priceSum_le
    intro a ha
    exact h a (List.mem_filter.mp ha).1
  simp only [figures, finished_sold]
  rw [hv]
  exact ⟨_, rfl⟩

theorem figures_reconcile (h : figures server tables x = .ok s) : Reconciles x.payments s := by
  simp only [figures, finished_sold] at h
  obtain ⟨v, hv, h⟩ := report_bind_eq_ok h
  cases h
  constructor
  case statuses => exact statusRows_sum
  case finished =>
    simp only
    omega
  case totals => exact categoryRows_total
  case sold => exact categoryRows_sold
  case values => exact categoryRows_value
  case amounts => exact paymentRows_sum
  case collected => exact paymentRows_find .paid
  case outstanding => exact paymentRows_find .pending
  case percent =>
    intro rate hrate
    apply ratio_percent _ hrate
    rw [← finished_sold]
    exact List.length_filter_le _ _
  case rate_none => exact ratio_none
  case average_none => exact average_none hv

end Figures

end MbararaAuction
