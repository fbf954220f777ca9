import MbararaAuction.Machine.DisputeBook

namespace MbararaAuction
open Queries

/-- The columns that the close decides. -/
def Auction.sale (row : Auction) : Sale := ⟨row.winner, row.finalPrice, row.reserveMet⟩

/-- What never changes in a payment. -/
def Payment.bill (p : Payment) : Nat × Money := (p.pk, p.amount)

/-- A sale is billed once, at its price; nothing else is billed. -/
def Billed (sale : Sale) (amounts : List Money) : Prop :=
  match sale.winner, sale.finalPrice with
  | some _, some price => 0 < price ∧ amounts = [price]
  | none, none => amounts = []
  | _, _ => False

/-- What is sold and billed before the close, and after it. -/
structure SaleBook (d : Dossier) : Prop where
  early : d.row.status.beforeClose = true → d.row.sale = ⟨none, none, none⟩ ∧ d.payments = []
  late : d.row.status.beforeClose = false → Billed d.row.sale (d.payments.map Payment.amount)

/-- The same phase, the same sale, the same bill. -/
structure SameSale (d d' : Dossier) : Prop where
  phase : d'.row.status.beforeClose = d.row.status.beforeClose
  sale : d'.row.sale = d.row.sale
  bill : d'.payments.map Payment.bill = d.payments.map Payment.bill

section Book
variable {view : View} {act : Action} {d d' : Dossier}

theorem SameSale.amounts (h : SameSale d d') :
    d'.payments.map Payment.amount = d.payments.map Payment.amount := by
  have hsnd := congrArg (List.map Prod.snd) h.bill
  rw [List.map_map, List.map_map] at hsnd
  exact hsnd

theorem SaleBook.keep (h : SaleBook d) (hs : SameSale d d') : SaleBook d' := by
  constructor
  · intro he
    rw [hs.phase] at he
    obtain ⟨hsale, hnone⟩ := h.early he
    have hbill := hs.bill
    rw [hnone, List.map_nil, List.map_eq_nil_iff] at hbill
    exact ⟨hs.sale.trans hsale, hbill⟩
  · intro hl
    rw [hs.phase] at hl
    rw [hs.sale, hs.amounts]
    exact h.late hl

/-- Nothing leads back to before the close. -/
theorem early_source {s t : Status} (h : t ∈ allowedTransitions s) (ht : t.beforeClose = true) :
    s.beforeClose = true := by
  cases s <;> cases t <;> simp_all [allowedTransitions, Status.beforeClose]

theorem paidWith_bill (actor : UserId) (method reference notes : String) (t : Time) (p : Payment) :
    (p.paidWith actor method reference notes t).bill = p.bill := rfl

theorem failedWith_bill (actor : UserId) (reason : String) (p : Payment) :
    (p.failedWith actor reason).bill = p.bill := rfl

theorem refundedWith_bill (actor : UserId) (notes reason : String) (p : Payment) :
    (p.refundedWith actor notes reason).bill = p.bill := rfl

theorem bill_updateKey {pk : Nat} {f : Payment → Payment} (hf : ∀ p, (f p).bill = p.bill)
    (payments : List Payment) :
    (updateKey Payment.pk pk f payments).map Payment.bill = payments.map Payment.bill :=
  map_updateKey _ hf

theorem Refunds.bill {refund : Bool} (h : Refunds view refund d d') :
    d'.payments.map Payment.bill = d.payments.map Payment.bill := by
  unfold Refunds at h
  split at h
  · obtain ⟨_, p, actor, reason, _, _, _, rfl⟩ := h
    exact bill_updateKey (refundedWith_bill _ _ _) d.payments
  · rw [h]

/-- Only the close changes what is sold and billed. -/
theorem Move.same_sale (hm : Move view act d d') (hbook : DisputeBook d) (hact : act ≠ .close) :
    SameSale d d' := by
  cases hm with
  | aside | reschedule | bid | invalidate | review => exact ⟨rfl, rfl, rfl⟩
  | enter allowed early =>
    exact ⟨early.trans (early_source allowed early).symm, rfl, rfl⟩
  | activate allowed => exact ⟨(early_source allowed rfl).symm, rfl, rfl⟩
  | resume status | start status => exact ⟨by rw [status]; rfl, rfl, rfl⟩
  | close => exact absurd rfl hact
  | pay => exact ⟨rfl, rfl, bill_updateKey (paidWith_bill _ _ _ _ _) d.payments⟩
  | settle _ closed =>
    exact ⟨by rw [closed]; rfl, rfl, bill_updateKey (paidWith_bill _ _ _ _ _) d.payments⟩
  | fail => exact ⟨rfl, rfl, bill_updateKey (failedWith_bill _ _) d.payments⟩
  | dispute disputable =>
    simp only [MbararaAuction.disputable, Bool.or_eq_true, beq_iff_eq] at disputable
    refine ⟨?_, rfl, rfl⟩
    rcases disputable with hs | hs <;> rw [hs] <;> rfl
  | resolve found active refunds closes =>
    obtain ⟨hrow, _, _, _⟩ := refunds.frame
    have hdisputed := hbook.disputed (find_key found).1 active
    constructor
    · rw [Dossier.onDispute_row, returned_row, Auction.withStatus_status, hdisputed]
      split <;> rfl
    · rw [Dossier.onDispute_row, returned_row, hrow]
      rfl
    · rw [Dossier.onDispute_payments, returned_payments]
      exact refunds.bill

/-- What `close_auction` can decide. -/
theorem saleOf_cases (row : Auction) (highest : Option Bid) :
    (highest = none ∧ saleOf row highest = ⟨none, none, none⟩) ∨
    (∃ b, highest = some b ∧ reserveMetBy row b = false ∧
      saleOf row highest = ⟨none, none, some false⟩) ∨
    ∃ b, highest = some b ∧ reserveMetBy row b = true ∧
      saleOf row highest = ⟨some b.bidder, some b.amount, some true⟩ := by
  cases highest with
  | none => exact .inl ⟨rfl, rfl⟩
  | some b =>
    cases hr : reserveMetBy row b with
    | false => exact .inr (.inl ⟨b, rfl, hr, by simp [saleOf, hr]⟩)
    | true => exact .inr (.inr ⟨b, rfl, hr, by simp [saleOf, hr]⟩)

/-- The close bills what it sells. -/
theorem SaleBook.close {actor : Option UserId} {reason : String} {owed : List Payment}
    (h : SaleBook d) (hbids : BidBook d) (live : d.row.status = .live)
    (owes : Owed (saleOf d.row (highestAccepted d.bids)) d.payments owed) :
    SaleBook (((d.onRow (.withSale (saleOf d.row (highestAccepted d.bids)))).entered .closed
      actor reason).addPayments owed) := by
  obtain ⟨_, hnone⟩ := h.early (by rw [live]; rfl)
  refine ⟨nofun, fun _ => ?_⟩
  simp only [Dossier.addPayments_payments, Dossier.entered_payments, Dossier.onRow_payments, hnone,
    List.nil_append]
  rw [hnone] at owes
  change Billed (saleOf d.row (highestAccepted d.bids)) _
  rcases saleOf_cases d.row (highestAccepted d.bids) with ⟨_, hs⟩ | ⟨_, _, _, hs⟩ | ⟨b, hb, _, hs⟩
  · rw [hs] at owes ⊢
    simp only [Owed] at owes
    simp [Billed, owes]
  · rw [hs] at owes ⊢
    simp only [Owed] at owes
    simp [Billed, owes]
  · rw [hs] at owes ⊢
    simp only [Owed, ↓reduceIte] at owes
    obtain ⟨pk, rfl⟩ := owes
    obtain ⟨⟨hmem, _⟩, _⟩ := highestAccepted_some hb
    have hpositive : 0 < b.amount := lt_of_lt_of_le hbids.terms.starting (hbids.floor b hmem)
    simp [Billed, hpositive, Payment.due]

/-- Every move keeps the book. -/
theorem SaleBook.move (h : SaleBook d) (hbids : BidBook d) (hdisputes : DisputeBook d)
    (hm : Move view act d d') : SaleBook d' := by
  by_cases hact : act = .close
  · subst hact
    cases hm with
    | close live owes => exact h.close hbids live owes
  · exact h.keep (hm.same_sale hdisputes hact)

theorem late_iff {s : Status} :
    s.beforeClose = false ↔ s = .closed ∨ s = .settled ∨ s = .completed ∨ s = .disputed := by
  cases s <;> simp [Status.beforeClose]

theorem Billed.cases {sale : Sale} {amounts : List Money} (h : Billed sale amounts) :
    (sale.winner = none ∧ amounts = []) ∨
    ∃ winner price, sale.winner = some winner ∧ sale.finalPrice = some price ∧ 0 < price ∧
      amounts = [price] := by
  unfold Billed at h
  split at h
  · rename_i winner price hwinner hprice
    exact .inr ⟨winner, price, hwinner, hprice, h⟩
  · rename_i hwinner _
    exact .inl ⟨hwinner, h⟩
  · cases h

/-- There is a payment exactly for a closed auction with a winner. -/
theorem SaleBook.billed_iff (h : SaleBook d) : d.payments ≠ [] ↔
    d.row.status.beforeClose = false ∧ d.row.winner ≠ none := by
  cases hphase : d.row.status.beforeClose with
  | true =>
    obtain ⟨_, hnone⟩ := h.early hphase
    simp [hnone]
  | false =>
    rcases (h.late hphase).cases with ⟨hwinner, hamounts⟩ | ⟨u, price, hwinner, _, _, hamounts⟩
    · rw [List.map_eq_nil_iff] at hamounts
      simp [hamounts, show d.row.winner = none from hwinner]
    · have hbilled : d.payments.map Payment.amount ≠ [] := by simp [hamounts]
      simpa [show d.row.winner = some u from hwinner] using hbilled

/-- It is the only one, and for the price. -/
theorem SaleBook.single (h : SaleBook d) {p : Payment} (hp : p ∈ d.payments) :
    d.payments = [p] ∧ d.row.finalPrice = some p.amount ∧ 0 < p.amount := by
  obtain ⟨hlate, hwon⟩ := h.billed_iff.mp (List.ne_nil_of_mem hp)
  rcases (h.late hlate).cases with ⟨hwinner, _⟩ | ⟨u, price, _, hprice, hpositive, hamounts⟩
  · exact absurd hwinner hwon
  · obtain ⟨q, hq, rfl⟩ := List.map_eq_singleton_iff.mp hamounts
    rw [hq] at hp
    rw [List.mem_singleton.mp hp]
    exact ⟨hq, hprice, hpositive⟩

theorem Fresh.saleBook (h : Fresh d) : SaleBook d := by
  obtain ⟨_, hwinner, hprice, hreserve⟩ := h.unsold
  obtain ⟨_, _, hpayments, _⟩ := h.empty
  constructor
  · intro _
    exact ⟨by simp [Auction.sale, hwinner, hprice, hreserve], hpayments⟩
  · intro hl
    rw [h.draft] at hl
    cases hl

end Book

/-- The three books of an auction. -/
structure Sound (d : Dossier) : Prop where
  bids : BidBook d
  disputes : DisputeBook d
  sale : SaleBook d

theorem Fresh.sound {d : Dossier} (h : Fresh d) : Sound d := ⟨h.bidBook, h.disputeBook, h.saleBook⟩

theorem Sound.move {view : View} {act : Action} {d d' : Dossier} (h : Sound d)
    (hm : Move view act d d') : Sound d' :=
  ⟨h.bids.move hm, h.disputes.move hm, h.sale.move h.bids h.disputes hm⟩

end MbararaAuction
