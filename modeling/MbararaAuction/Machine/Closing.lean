import MbararaAuction.Machine.SaleBook

namespace MbararaAuction
open Queries

/-- The standing bid that wins: the greatest amount, and of equal ones the earliest. -/
def Best (bids : List Bid) (b : Bid) : Prop :=
  (b ∈ bids ∧ b.status = .accepted) ∧ ∀ x ∈ bids, x.status = .accepted → x ≠ b →
    x.amount < b.amount ∨ (x.amount = b.amount ∧ b.sequenceNo < x.sequenceNo)

/-- What the close of the auction `d` makes of it, whatever its history. -/
structure Decided (d d' : Dossier) : Prop where
  closed : d'.row.status = .closed
  bids : d'.bids = d.bids
  nobody : (∀ b ∈ d.bids, b.status ≠ .accepted) →
    d'.row.winner = none ∧ d'.row.finalPrice = none ∧ d'.row.reserveMet = none
  reserve : ∀ b, Best d.bids b → d'.row.reserveMet ≠ none ∧
    (d'.row.reserveMet = some true ↔ ∀ r, d.row.reservePrice = some r → r ≤ b.amount)
  sold : ∀ b, Best d.bids b → d'.row.reserveMet = some true →
    d'.row.winner = some b.bidder ∧ d'.row.finalPrice = some b.amount
  kept : ∀ b, Best d.bids b → d'.row.reserveMet = some false →
    d'.row.winner = none ∧ d'.row.finalPrice = none

section Closing
variable {view : View} {d d' : Dossier} {b : Bid}

theorem highestAccepted_best (h : Best d.bids b) : highestAccepted d.bids = some b := by
  refine firstBy_eq_some ranking_highestFirst (mem_accepted.mpr h.1) fun x hx hne => ?_
  obtain ⟨hx, hs⟩ := mem_accepted.mp hx
  simp only [highestFirst, Bool.or_eq_true, decide_eq_true_eq, Bool.and_eq_true, beq_iff_eq]
  rcases h.2 x hx hs hne with hlt | ⟨heq, hlt⟩
  · exact .inl hlt
  · exact .inr ⟨heq.symm, hlt⟩

theorem reserveMetBy_iff (row : Auction) (b : Bid) :
    reserveMetBy row b = true ↔ ∀ r, row.reservePrice = some r → r ≤ b.amount := by
  unfold reserveMetBy
  cases row.reservePrice <;> simp

theorem sale_of_close (hm : Move view .close d d') :
    d'.row.sale = saleOf d.row (highestAccepted d.bids) := by
  cases hm with
  | close => rfl

/-- With a best bid the reserve decides. -/
theorem sale_of_best (hm : Move view .close d d') (hb : Best d.bids b) :
    d'.row.reserveMet = some (reserveMetBy d.row b) ∧
    (reserveMetBy d.row b = true →
      d'.row.winner = some b.bidder ∧ d'.row.finalPrice = some b.amount) ∧
    (reserveMetBy d.row b = false → d'.row.winner = none ∧ d'.row.finalPrice = none) := by
  have hsale := sale_of_close hm
  rw [highestAccepted_best hb] at hsale
  cases hmet : reserveMetBy d.row b <;>
    simp only [Auction.sale, saleOf, hmet, ↓reduceIte, Bool.false_eq_true, Sale.mk.injEq] at hsale
  · obtain ⟨hwinner, hprice, hreserve⟩ := hsale
    exact ⟨hreserve, fun hyes => absurd hyes Bool.false_ne_true, fun _ => ⟨hwinner, hprice⟩⟩
  · obtain ⟨hwinner, hprice, hreserve⟩ := hsale
    exact ⟨hreserve, fun _ => ⟨hwinner, hprice⟩, fun hno => absurd hno.symm Bool.false_ne_true⟩

theorem decided_of_close (hm : Move view .close d d') : Decided d d' := by
  constructor
  · cases hm with
    | close => rfl
  · exact (hm.same_bids nofun nofun).1
  · intro hnone
    have hsale := sale_of_close hm
    rw [highestAccepted_none.mpr hnone] at hsale
    simpa [Auction.sale, saleOf] using hsale
  · intro b hb
    obtain ⟨hmet, _⟩ := sale_of_best hm hb
    rw [← reserveMetBy_iff, hmet]
    simp
  · intro b hb hsold
    obtain ⟨hmet, hyes, _⟩ := sale_of_best hm hb
    rw [hmet, Option.some.injEq] at hsold
    exact hyes hsold
  · intro b hb hkept
    obtain ⟨hmet, _, hno⟩ := sale_of_best hm hb
    rw [hmet, Option.some.injEq] at hkept
    exact hno hkept

/-- Among bids that keep the increment there is a strictly greatest one. -/
theorem BidBook.best (h : BidBook d) (hs : ∃ b ∈ d.bids, b.status = .accepted) :
    ∃ b, Best d.bids b ∧ ∀ x ∈ d.bids, x.status = .accepted → x ≠ b → x.amount < b.amount := by
  cases hf : highestAccepted d.bids with
  | none =>
    obtain ⟨b, hb, hstanding⟩ := hs
    exact absurd hstanding (highestAccepted_none.mp hf b hb)
  | some b =>
    obtain ⟨hmem, hmax⟩ := highestAccepted_some hf
    have hstrict : ∀ x ∈ d.bids, x.status = .accepted → x ≠ b → x.amount < b.amount := by
      intro x hx hsx hne
      refine lt_of_le_of_ne (hmax x hx hsx).1 fun heq => hne ?_
      exact h.no_tie hx hmem.1 hsx hmem.2 heq
    exact ⟨b, ⟨hmem, fun x hx hsx hne => .inl (hstrict x hx hsx hne)⟩, hstrict⟩

/-- The close neither touches the maximum nor the terms. -/
theorem close_row (hm : Move view .close d d') :
    d'.row.currentHighestBid = d.row.currentHighestBid ∧ d'.row.listing = d.row.listing := by
  refine ⟨?_, hm.listing⟩
  exact (hm.same_bids nofun nofun).2

theorem BidBook.best_highest (h : BidBook d) (hb : Best d.bids b) :
    d.row.currentHighestBid = some b.amount := by
  rw [h.highest.amount, highestAccepted_best hb]
  rfl

end Closing

end MbararaAuction
