import MbararaAuction.Machine.Moves
import MbararaAuction.Model.Listings

namespace MbararaAuction
open Queries

/-- The terms of a listing that the form accepts. -/
structure Terms (row : Auction) : Prop where
  starting : 0 < row.startingPrice
  increment : 0 < row.minIncrement
  reserve : ∀ r, row.reservePrice = some r → row.startingPrice ≤ r

theorem terms_of_valid {row : Auction} (h : (AuctionForm.of row).isValid = true) : Terms row := by
  simp only [AuctionForm.isValid, AuctionForm.cleanError, AuctionForm.modelError, AuctionForm.of,
    Bool.and_eq_true, Option.isNone_iff_eq_none] at h
  obtain ⟨hclean, hmodel⟩ := h
  by_cases htime : row.endTime ≤ row.startTime
  · simp [htime] at hclean
  by_cases hs : row.startingPrice ≤ 0
  · simp [htime, hs] at hmodel
  by_cases hi : row.minIncrement ≤ 0
  · simp [htime, hs, hi] at hmodel
  refine ⟨not_le.mp hs, not_le.mp hi, ?_⟩
  intro r hr
  simp only [htime, ↓reduceIte, hr] at hclean
  by_cases hlow : r < row.startingPrice
  · simp [hlow] at hclean
  · exact not_lt.mp hlow

/-- The denormalised maximum: nothing, or the greatest standing amount. -/
def IsHighest (highest : Option Money) (bids : List Bid) : Prop :=
  match highest with
  | none => ∀ b ∈ bids, b.status ≠ .accepted
  | some m => (∃ b ∈ bids, b.status = .accepted ∧ b.amount = m) ∧
      ∀ b ∈ bids, b.status = .accepted → b.amount ≤ m

/-- The book of bids under the terms of its auction. -/
structure BidBook (d : Dossier) : Prop where
  terms : Terms d.row
  numbered : d.bids.map Bid.sequenceNo = List.range' 1 d.bids.length
  highest : IsHighest d.row.currentHighestBid d.bids
  gap : d.bids.Pairwise (fun x y => x.status = .accepted → y.status = .accepted →
    x.amount + d.row.minIncrement ≤ y.amount)
  floor : ∀ b ∈ d.bids, d.row.startingPrice ≤ b.amount
  outsider : ∀ b ∈ d.bids, b.bidder ≠ d.row.seller
  keys : (d.bids.map Bid.pk).Nodup

theorem ranking_highestFirst : Ranking highestFirst where
  asymm x y h := by
    simp only [highestFirst, Bool.or_eq_true, decide_eq_true_eq, Bool.and_eq_true, beq_iff_eq] at h ⊢
    lia
  split x y z h := by
    simp only [highestFirst, Bool.or_eq_true, decide_eq_true_eq, Bool.and_eq_true, beq_iff_eq] at h ⊢
    lia

theorem mem_accepted {bids : List Bid} {b : Bid} :
    b ∈ accepted bids ↔ b ∈ bids ∧ b.status = .accepted := by
  simp [accepted]

theorem highestAccepted_none {bids : List Bid} :
    highestAccepted bids = none ↔ ∀ b ∈ bids, b.status ≠ .accepted := by
  simp [highestAccepted, firstBy_eq_none, accepted]

/-- What the query for the highest bid returns. -/
theorem highestAccepted_some {bids : List Bid} {b : Bid} (h : highestAccepted bids = some b) :
    (b ∈ bids ∧ b.status = .accepted) ∧
    ∀ x ∈ bids, x.status = .accepted → x.amount ≤ b.amount ∧
      (x.amount = b.amount → b.sequenceNo ≤ x.sequenceNo) := by
  refine ⟨mem_accepted.mp (firstBy_mem h), ?_⟩
  intro x hx hs
  have hn := firstBy_first ranking_highestFirst h x (mem_accepted.mpr ⟨hx, hs⟩)
  simp only [highestFirst, Bool.or_eq_true, decide_eq_true_eq, Bool.and_eq_true, beq_iff_eq] at hn
  lia

theorem isHighest_highestAccepted (bids : List Bid) :
    IsHighest ((highestAccepted bids).map Bid.amount) bids := by
  cases h : highestAccepted bids with
  | none => exact highestAccepted_none.mp h
  | some b =>
    obtain ⟨⟨hb, hs⟩, hmax⟩ := highestAccepted_some h
    exact ⟨⟨b, hb, hs, rfl⟩, fun x hx hsx => (hmax x hx hsx).1⟩

/-- A maximum determines the amount of the bid that the query finds. -/
theorem IsHighest.amount {highest : Option Money} {bids : List Bid} (h : IsHighest highest bids) :
    highest = (highestAccepted bids).map Bid.amount := by
  cases hf : highestAccepted bids with
  | none =>
    rw [highestAccepted_none] at hf
    cases highest with
    | none => rfl
    | some m =>
      obtain ⟨⟨b, hb, hs, _⟩, _⟩ := h
      exact absurd hs (hf b hb)
  | some b =>
    obtain ⟨⟨hb, hs⟩, hmax⟩ := highestAccepted_some hf
    cases highest with
    | none => exact absurd hs (h b hb)
    | some m =>
      obtain ⟨⟨x, hx, hsx, hxm⟩, hle⟩ := h
      have h1 := hle b hb hs
      have h2 := (hmax x hx hsx).1
      rw [hxm] at h2
      exact congrArg some (le_antisymm h2 h1)

theorem ranking_greatest : Ranking (fun x y : Nat => decide (y < x)) where
  asymm x y h := by
    simp only [decide_eq_true_eq] at h ⊢
    omega
  split x y z h := by
    simp only [decide_eq_true_eq] at h ⊢
    omega

/-- On a gapless book the next number continues the count. -/
theorem nextSequence_eq {bids : List Bid}
    (h : bids.map Bid.sequenceNo = List.range' 1 bids.length) :
    nextSequence bids = bids.length + 1 := by
  unfold nextSequence
  rw [h]
  cases hf : firstBy (fun x y => decide (y < x)) (List.range' 1 bids.length) with
  | none =>
    rw [firstBy_eq_none, List.range'_eq_nil_iff] at hf
    simp [hf]
  | some m =>
    have hm := firstBy_mem hf
    have hmax := firstBy_first ranking_greatest hf bids.length
    simp only [List.mem_range'_1, decide_eq_true_eq, not_lt] at hm hmax
    simp only [Option.getD_some]
    omega

theorem Terms.keep {row row' : Auction} (h : Terms row) (hl : row'.listing = row.listing) :
    Terms row' := by
  have hs : row'.startingPrice = row.startingPrice := congrArg Listing.startingPrice hl
  have hi : row'.minIncrement = row.minIncrement := congrArg Listing.minIncrement hl
  have hr : row'.reservePrice = row.reservePrice := congrArg Listing.reservePrice hl
  obtain ⟨h₁, h₂, h₃⟩ := h
  rw [← hs] at h₁ h₃
  rw [← hi] at h₂
  rw [← hr] at h₃
  exact ⟨h₁, h₂, h₃⟩

/-- What touches neither the bids nor their maximum keeps the book. -/
theorem BidBook.keep {d d' : Dossier} (h : BidBook d) (hbids : d'.bids = d.bids)
    (hl : d'.row.listing = d.row.listing)
    (hm : d'.row.currentHighestBid = d.row.currentHighestBid) : BidBook d' := by
  have hs : d'.row.startingPrice = d.row.startingPrice := congrArg Listing.startingPrice hl
  have hi : d'.row.minIncrement = d.row.minIncrement := congrArg Listing.minIncrement hl
  have hu : d'.row.seller = d.row.seller := congrArg Listing.seller hl
  constructor
  · exact h.terms.keep hl
  · rw [hbids]
    exact h.numbered
  · rw [hbids, hm]
    exact h.highest
  · rw [hbids, hi]
    exact h.gap
  · rw [hbids, hs]
    exact h.floor
  · rw [hbids, hu]
    exact h.outsider
  · rw [hbids]
    exact h.keys

theorem minimum_of_highest {row : Auction} {bids : List Bid} {b : Bid}
    (hm : IsHighest row.currentHighestBid bids) (hb : b ∈ bids) (hs : b.status = .accepted) :
    b.amount + row.minIncrement ≤ minimumPermitted row := by
  unfold minimumPermitted
  cases hc : row.currentHighestBid with
  | none =>
    rw [hc] at hm
    exact absurd hs (hm b hb)
  | some m =>
    rw [hc] at hm
    have hle := hm.2 b hb hs
    simp only
    lia

theorem starting_le_minimum {d : Dossier} (h : BidBook d) :
    d.row.startingPrice ≤ minimumPermitted d.row := by
  have hm := h.highest
  have hi := h.terms.increment
  unfold minimumPermitted
  cases hc : d.row.currentHighestBid with
  | none => exact le_refl _
  | some m =>
    rw [hc] at hm
    obtain ⟨⟨b, hb, _, hbm⟩, _⟩ := hm
    have hf := h.floor b hb
    simp only
    lia

/-- A bid that is high enough becomes the maximum, and extends the count. -/
theorem BidBook.bid {d : Dossier} {b : Bid} {endTime : Time} (h : BidBook d)
    (outsider : b.bidder ≠ d.row.seller) (enough : minimumPermitted d.row ≤ b.amount)
    (next : b.sequenceNo = nextSequence d.bids) (standing : b.status = .accepted)
    (fresh : b.pk ∉ d.bids.map Bid.pk) :
    BidBook ((d.addBid b).onRow (.withBid b.amount endTime)) := by
  have habove : ∀ x ∈ d.bids, x.status = .accepted → x.amount + d.row.minIncrement ≤ b.amount :=
    fun x hx hs => le_trans (minimum_of_highest h.highest hx hs) enough
  have hstart := le_trans (starting_le_minimum h) enough
  have hi := h.terms.increment
  constructor
  · exact h.terms.keep rfl
  · simp only [Dossier.onRow_bids, Dossier.addBid_bids, List.map_append, List.map_cons, List.map_nil,
      List.length_append, List.length_cons, List.length_nil]
    rw [h.numbered, next, nextSequence_eq h.numbered, List.range'_1_concat]
    simp [Nat.add_comm]
  · refine ⟨⟨b, by simp, standing, rfl⟩, ?_⟩
    intro x hx hs
    rcases List.mem_append.mp hx with hx | hx
    · have := habove x hx hs
      lia
    · rw [List.mem_singleton.mp hx]
  · simp only [Dossier.onRow_bids, Dossier.addBid_bids, List.pairwise_append]
    refine ⟨h.gap, List.pairwise_singleton _ _, ?_⟩
    intro x hx y hy hsx _
    rw [List.mem_singleton.mp hy]
    exact habove x hx hsx
  · intro x hx
    rcases List.mem_append.mp hx with hx | hx
    · exact h.floor x hx
    · rw [List.mem_singleton.mp hx]
      exact hstart
  · intro x hx
    rcases List.mem_append.mp hx with hx | hx
    · exact h.outsider x hx
    · rw [List.mem_singleton.mp hx]
      exact outsider
  · simp only [Dossier.onRow_bids, Dossier.addBid_bids, List.map_append, List.map_cons, List.map_nil]
    exact List.nodup_append.mpr ⟨h.keys, List.nodup_singleton _, by
      intro x hx y hy hxy
      rw [List.mem_singleton.mp hy] at hxy
      exact fresh (hxy ▸ hx)⟩

/-- Every bid after an invalidation is a bid from before, perhaps struck out. -/
theorem mem_invalidated {d : Dossier} {pk : Nat} {actor : UserId} {reason : String} {t : Time}
    {b : Bid} (h : b ∈ (d.onBid pk (.invalidatedWith actor reason t)).bids) :
    ∃ x ∈ d.bids, b.amount = x.amount ∧ b.bidder = x.bidder ∧
      (b.status = .accepted → b = x ∧ x.pk ≠ pk) := by
  obtain ⟨x, hx, rfl⟩ := mem_updateKey.mp h
  refine ⟨x, hx, ?_⟩
  by_cases hk : x.pk = pk
  · simp [hk, Bid.invalidatedWith]
  · simp [hk]

/-- An invalidation lowers the maximum to the best bid left. -/
theorem BidBook.invalidate {d : Dossier} {pk : Nat} {actor : UserId} {reason : String} {t : Time}
    (h : BidBook d) :
    BidBook ((d.onBid pk (.invalidatedWith actor reason t)).onRow (.withHighest
      ((highestAccepted (d.onBid pk (.invalidatedWith actor reason t)).bids).map Bid.amount))) := by
  have hlength : (d.onBid pk (.invalidatedWith actor reason t)).bids.length = d.bids.length := by
    simp [updateKey]
  constructor
  · exact h.terms.keep rfl
  · rw [Dossier.onRow_bids, hlength, Dossier.onBid_bids,
      map_updateKey Bid.sequenceNo (by exact fun _ => rfl)]
    exact h.numbered
  · exact isHighest_highestAccepted _
  · simp only [Dossier.onRow_bids, Dossier.onBid_bids, updateKey, List.pairwise_map]
    refine h.gap.imp fun {x y} hxy hsx hsy => ?_
    by_cases hx : x.pk = pk
    · simp [hx, Bid.invalidatedWith] at hsx
    by_cases hy : y.pk = pk
    · simp [hy, Bid.invalidatedWith] at hsy
    simp only [hx, hy, ↓reduceIte] at hsx hsy ⊢
    exact hxy hsx hsy
  · intro b hb
    obtain ⟨x, hx, hamount, _⟩ := mem_invalidated hb
    rw [hamount]
    exact h.floor x hx
  · intro b hb
    obtain ⟨x, hx, _, hbidder, _⟩ := mem_invalidated hb
    rw [hbidder]
    exact h.outsider x hx
  · rw [Dossier.onRow_bids, Dossier.onBid_bids, map_updateKey Bid.pk (by exact fun _ => rfl)]
    exact h.keys

/-- The book lists the bids in the order of their numbers. -/
theorem BidBook.sorted {d : Dossier} (h : BidBook d) :
    d.bids.Pairwise (fun x y => x.sequenceNo < y.sequenceNo) := by
  have hrange : (List.range' 1 d.bids.length).Pairwise (· < ·) := List.pairwise_lt_range'
  rw [← h.numbered, List.pairwise_map] at hrange
  exact hrange

/-- Standing bids keep the increment, in the order of their numbers. -/
theorem BidBook.increments {d : Dossier} (h : BidBook d) {x y : Bid} (hx : x ∈ d.bids)
    (hy : y ∈ d.bids)
    (hsx : x.status = .accepted) (hsy : y.status = .accepted) (hlt : x.sequenceNo < y.sequenceNo) :
    x.amount + d.row.minIncrement ≤ y.amount := by
  obtain ⟨i, hi, rfl⟩ := List.getElem_of_mem hx
  obtain ⟨j, hj, rfl⟩ := List.getElem_of_mem hy
  have hsorted := List.pairwise_iff_getElem.mp h.sorted
  have hgap := List.pairwise_iff_getElem.mp h.gap
  rcases Nat.lt_trichotomy i j with hij | hij | hij
  · exact hgap i j hi hj hij hsx hsy
  · subst hij
    exact absurd hlt (Nat.lt_irrefl _)
  · exact absurd (hsorted j i hj hi hij) (Nat.lt_asymm hlt)

/-- No two standing bids tie. -/
theorem BidBook.no_tie {d : Dossier} (h : BidBook d) {x y : Bid} (hx : x ∈ d.bids) (hy : y ∈ d.bids)
    (hsx : x.status = .accepted) (hsy : y.status = .accepted) (he : x.amount = y.amount) : x = y := by
  have hi := h.terms.increment
  rcases Nat.lt_trichotomy x.sequenceNo y.sequenceNo with hlt | heq | hlt
  · have := h.increments hx hy hsx hsy hlt
    lia
  · have hnodup : (d.bids.map Bid.sequenceNo).Nodup := by
      rw [h.numbered]
      exact List.nodup_range'
    exact List.inj_on_of_nodup_map hnodup hx hy heq
  · have := h.increments hy hx hsy hsx hlt
    lia

/-- Bids and their maximum change by bids and invalidations only. -/
theorem Move.same_bids {view : View} {act : Action} {d d' : Dossier} (hm : Move view act d d')
    (hbid : act ≠ .bid) (hinvalidate : ∀ pk, act ≠ .invalidate pk) :
    d'.bids = d.bids ∧ d'.row.currentHighestBid = d.row.currentHighestBid := by
  cases hm with
  | bid => exact absurd rfl hbid
  | invalidate => exact absurd rfl (hinvalidate _)
  | resolve found active refunds closes =>
    obtain ⟨hrow, hbids, _, _⟩ := refunds.frame
    rw [Dossier.onDispute_bids, returned_bids, Dossier.onDispute_row, returned_row, hrow]
    exact ⟨hbids, rfl⟩
  | _ => exact ⟨rfl, rfl⟩

/-- Every move keeps the book. -/
theorem BidBook.move {view : View} {act : Action} {d d' : Dossier} (h : BidBook d)
    (hm : Move view act d d') : BidBook d' := by
  by_cases hbid : act = .bid
  · subst hbid
    cases hm with
    | bid live time window outsider enough positive next standing fresh =>
      exact h.bid outsider enough next standing fresh
  by_cases hinvalidate : ∃ pk, act = .invalidate pk
  · obtain ⟨pk, rfl⟩ := hinvalidate
    cases hm with
    | invalidate => exact h.invalidate
  obtain ⟨hbids, hhighest⟩ := hm.same_bids hbid fun pk he => hinvalidate ⟨pk, he⟩
  exact h.keep hbids hm.listing hhighest

/-- Where a listing begins: its terms are those of a valid form, and nothing has
happened yet. -/
structure Fresh (d : Dossier) : Prop where
  draft : d.row.status = .draft
  valid : (AuctionForm.of d.row).isValid = true
  unsold : d.row.currentHighestBid = none ∧ d.row.winner = none ∧ d.row.finalPrice = none ∧
    d.row.reserveMet = none
  empty : d.bids = [] ∧ d.logs = [] ∧ d.payments = [] ∧ d.disputes = []

theorem Fresh.bidBook {d : Dossier} (h : Fresh d) : BidBook d := by
  obtain ⟨hbids, _⟩ := h.empty
  constructor
  · exact terms_of_valid h.valid
  · simp [hbids]
  · rw [h.unsold.1, hbids]
    exact fun b hb => absurd hb List.not_mem_nil
  all_goals simp [hbids]

/-- A listing as its seller has just saved it. -/
def sampleAuction : Auction where
  seller := 1
  category := 1
  title := "Ankole heifer"
  description := "Three years old, vaccinated"
  location := "Mbarara"
  startingPrice := 50000000
  reservePrice := some 60000000
  minIncrement := 1000000
  currentHighestBid := none
  startTime := 0
  endTime := minutes 60
  extensionMinutes := 5
  status := .draft
  winner := none
  finalPrice := none
  reserveMet := none

/-- The listing among an officer, its seller and two bidders. -/
def sampleDatabase : Database where
  auctionPks := [0]
  dossier := fun _ => ⟨sampleAuction, [], [], [], []⟩
  audit := []
  notifications := []
  userPks := [0, 1, 2, 3]
  users := fun u =>
    ⟨"user", if u = 0 then .officer else if u = 1 then .seller else .bidder, false, true⟩
  sellerProfiles := fun u => if u = 1 then some ⟨.verified, none, none, 0⟩ else none
  bidderProfiles := fun u => if 2 ≤ u then some ⟨.verified, .active, none, none, 0⟩ else none
  clock := minutes 10

/-- The requests that open the sample listing for bids. -/
def opening : List (Transactions.Request Call Outside) :=
  [.call (.submitForReview 0 1), .call (.approve 0 0 ""), .call (.activateIfDue 0 none)]

theorem sample_fresh : Fresh (sampleDatabase.dossier 0) where
  draft := rfl
  valid := by decide
  unsold := ⟨rfl, rfl, rfl, rfl⟩
  empty := ⟨rfl, rfl, rfl, rfl⟩

end MbararaAuction
