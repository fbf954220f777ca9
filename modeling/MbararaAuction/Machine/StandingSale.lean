import MbararaAuction.Machine.SaleBook

namespace MbararaAuction
open Queries

/-- A declared sale rests on the best standing bid. -/
def Rests (d : Dossier) : Prop :=
  ∀ winner price, d.row.winner = some winner → d.row.finalPrice = some price →
    (∃ b ∈ d.bids, b.status = .accepted ∧ b.bidder = winner ∧ b.amount = price) ∧
    (∀ b ∈ d.bids, b.status = .accepted → b.amount ≤ price) ∧
    d.row.currentHighestBid = some price

/-- The bid `pk` is the standing one that made the declared sale. -/
def Decisive (d : Dossier) (pk : Nat) : Prop :=
  ∃ b ∈ d.bids, b.pk = pk ∧ b.status = .accepted ∧ d.row.winner = some b.bidder ∧
    d.row.finalPrice = some b.amount

section Standing
variable {view : View} {act : Action} {d d' : Dossier} {pk : Nat}

/-- Without a winner there is nothing to rest on a bid. -/
theorem rests_unsold (h : d.row.winner = none) : Rests d := by
  intro winner price hw
  rw [h] at hw
  cases hw

theorem Rests.keep (h : Rests d) (hbids : d'.bids = d.bids)
    (hhighest : d'.row.currentHighestBid = d.row.currentHighestBid) (hsale : d'.row.sale = d.row.sale) :
    Rests d' := by
  simp only [Auction.sale, Sale.mk.injEq] at hsale
  obtain ⟨hwinner, hprice, _⟩ := hsale
  intro winner price hw hp
  rw [hwinner] at hw
  rw [hprice] at hp
  rw [hbids, hhighest]
  exact h winner price hw hp

/-- The close sells to the best standing bid. -/
theorem rests_close {actor : Option UserId} {reason : String} {owed : List Payment}
    (h : BidBook d) : Rests (((d.onRow (.withSale (saleOf d.row (highestAccepted d.bids)))).entered
      .closed actor reason).addPayments owed) := by
  intro winner price hw hp
  change (saleOf d.row (highestAccepted d.bids)).winner = some winner at hw
  change (saleOf d.row (highestAccepted d.bids)).finalPrice = some price at hp
  rcases saleOf_cases d.row (highestAccepted d.bids) with ⟨_, hs⟩ | ⟨_, _, _, hs⟩ | ⟨b, hb, _, hs⟩
  · rw [hs] at hw
    cases hw
  · rw [hs] at hw
    cases hw
  · rw [hs] at hw hp
    cases hw
    cases hp
    obtain ⟨⟨hmem, hstanding⟩, hmax⟩ := highestAccepted_some hb
    have hhighest := h.highest.amount
    rw [hb] at hhighest
    exact ⟨⟨b, hmem, hstanding, rfl, rfl⟩, fun x hx hsx => (hmax x hx hsx).1, hhighest⟩

/-- Striking out any other bid leaves the sale on its bid. -/
theorem Rests.invalidate {actor : UserId} {reason : String} {t : Time} (h : Rests d)
    (hn : ¬ Decisive d pk) :
    Rests ((d.onBid pk (.invalidatedWith actor reason t)).onRow (.withHighest
      ((highestAccepted (d.onBid pk (.invalidatedWith actor reason t)).bids).map Bid.amount))) := by
  intro winner price hw hp
  obtain ⟨⟨b, hb, hs, hbw, hbp⟩, hmax, _⟩ := h winner price hw hp
  have hkey : b.pk ≠ pk := by
    intro hk
    refine hn ⟨b, hb, hk, hs, ?_, ?_⟩
    · rw [hbw]
      exact hw
    · rw [hbp]
      exact hp
  have hstays : b ∈ (d.onBid pk (.invalidatedWith actor reason t)).bids :=
    mem_updateKey.mpr ⟨b, hb, (if_neg hkey).symm⟩
  have hmax' : ∀ x ∈ (d.onBid pk (.invalidatedWith actor reason t)).bids, x.status = .accepted →
      x.amount ≤ price := by
    intro x hx hsx
    obtain ⟨y, hy, _, _, hsame⟩ := mem_invalidated hx
    obtain ⟨rfl, _⟩ := hsame hsx
    exact hmax x hy hsx
  have hhighest : IsHighest (some price) (d.onBid pk (.invalidatedWith actor reason t)).bids :=
    ⟨⟨b, hstays, hs, hbp⟩, hmax'⟩
  exact ⟨⟨b, hstays, hs, hbw, hbp⟩, hmax', hhighest.amount.symm⟩

/-- Striking out the bid that made the sale leaves it without one: no other bid
stands at that price. -/
theorem rests_broken {actor : UserId} {reason : String} {t : Time} (h : BidBook d)
    (hd : Decisive d pk) :
    ¬ Rests ((d.onBid pk (.invalidatedWith actor reason t)).onRow (.withHighest
      ((highestAccepted (d.onBid pk (.invalidatedWith actor reason t)).bids).map Bid.amount))) := by
  intro hrests
  obtain ⟨b, hb, hk, hs, hw, hp⟩ := hd
  obtain ⟨⟨x, hx, hsx, _, hxp⟩, _⟩ := hrests b.bidder b.amount hw hp
  obtain ⟨y, hy, _, _, hsame⟩ := mem_invalidated hx
  obtain ⟨rfl, hne⟩ := hsame hsx
  rw [h.no_tie hy hb hsx hs hxp] at hne
  exact hne hk

/-- Every move that spares the bid of the sale keeps the sale on it. -/
theorem Rests.move (h : Rests d) (hsound : Sound d) (hm : Move view act d d')
    (hspares : ∀ pk, act = .invalidate pk → ¬ Decisive d pk) : Rests d' := by
  by_cases hclose : act = .close
  · subst hclose
    cases hm with
    | close => exact rests_close hsound.bids
  by_cases hinvalidate : ∃ pk, act = .invalidate pk
  · obtain ⟨pk, rfl⟩ := hinvalidate
    cases hm with
    | invalidate => exact h.invalidate (hspares pk rfl)
  by_cases hbid : act = .bid
  · subst hbid
    cases hm with
    | bid live =>
      obtain ⟨hunsold, _⟩ := hsound.sale.early (by rw [live]; rfl)
      exact rests_unsold (congrArg Sale.winner hunsold)
  obtain ⟨hbids, hhighest⟩ := hm.same_bids hbid fun pk he => hinvalidate ⟨pk, he⟩
  exact h.keep hbids hhighest (hm.same_sale hsound.disputes hclose).sale

end Standing

end MbararaAuction
