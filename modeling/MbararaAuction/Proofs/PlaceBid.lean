import MbararaAuction.Proofs.Effects
import MbararaAuction.Proofs.Keys
import MbararaAuction.Proofs.Windows

namespace MbararaAuction
open Transactions Queries Locking

seal Tx.Exec

section Verdict

/-- Why `place_bid` turns the bidder away, whatever is offered. -/
def objection (s : Database) (a : AuctionId) (u : UserId) : Option String :=
  if (s.dossier a).row.isBiddable s.clock = false then
    some "This auction is not currently open for bidding."
  else match s.bidderProfiles u with
    | none => some "Only registered bidders can place bids."
    | some profile =>
      if profile.isEligibleToBid (s.users u).isActive = false then
        some "Your bidder account is not currently eligible to bid (verification or suspension)."
      else if u = (s.dossier a).row.seller then some "Sellers cannot bid on their own auction."
      else none

/-- The amount that `place_bid` books, or why it rejects the bid. -/
def bidVerdict (s : Database) (a : AuctionId) (u : UserId) (amount : Number) :
    Except PyError BidAmount :=
  match validateAmount amount, objection s a u with
  | .error e, _ => .error e
  | .ok _, some message => .error (.bidRejected message)
  | .ok value, none =>
    if value.money < minimumPermitted (s.dossier a).row then .error (.bidRejected
      s!"Your bid must be at least {moneyStr (minimumPermitted (s.dossier a).row)}.")
    else .ok value

/-- What a bid that is booked has passed. -/
theorem verdict_ok {s : Database} {a : AuctionId} {u : UserId} {amount : Number} {value : BidAmount}
    (h : bidVerdict s a u amount = .ok value) : validateAmount amount = .ok value ∧
      objection s a u = none ∧ minimumPermitted (s.dossier a).row ≤ value.money := by
  unfold bidVerdict at h
  split at h
  · cases h
  · cases h
  · split at h
    · cases h
    · next hlow =>
      cases h
      exact ⟨‹_›, ‹_›, not_lt.mp hlow⟩

variable {w : World Database Nat} {a : AuctionId} {u : UserId} {amount : Number}

/-- `place_bid` after its checks. -/
def enterBid (a : AuctionId) (u : UserId) (value : BidAmount) (locked : Auction) (t : Time) :
    Prog Bid := do
  let bids ← Tx.query (fun s => (s.dossier a).bids)
  let bid ← createBid a u value.money (nextSequence bids)
  Tx.when (locked.extensionMinutes ≠ 0 ∧ locked.endTime - t ≤ minutes locked.extensionMinutes)
    (record (some u) .auctionExtended (.auction a) "Bid received inside anti-sniping window")
  saveAuction a (.withBid value.money (extendedEnd locked t))
  record (some u) .bidPlaced (.bid a bid.pk) ""
  notifyOutbid a locked bid value.str
  pure bid

theorem run_lockedAuction_bind {β : Type} {f : Auction → Prog β} :
    (lockedAuction a >>= f).run w = (f (w.db.dossier a).row).run w := rfl

theorem run_now_bind {β : Type} {f : Time → Prog β} : (now >>= f).run w = (f w.db.clock).run w := rfl

/-- Alone, `place_bid` makes its checks, and then the bid. -/
theorem placeBid_run : (placeBid a u amount).run w = match bidVerdict w.db a u amount with
    | .error e => (.error e, w)
    | .ok value => (enterBid a u value (w.db.dossier a).row w.db.clock).run w := by
  unfold placeBid bidVerdict objection
  cases hvalue : validateAmount amount with
  | error e => rfl
  | ok value =>
    change (lockedAuction a >>= _).run w = _
    simp only [run_lockedAuction_bind, run_now_bind, run_refuse_bind, run_glance_bind]
    by_cases hopen : (w.db.dossier a).row.isBiddable w.db.clock = true
    · have hwindow := biddable_iff.mp hopen
      rw [if_neg (by simp [hwindow]), hopen]
      cases hprofile : w.db.bidderProfiles u with
      | none => rfl
      | some profile =>
        cases heligible : profile.isEligibleToBid (w.db.users u).isActive with
        | false => simp [heligible]
        | true =>
          by_cases hseller : u = (w.db.dossier a).row.seller
          · simp [heligible, ← hseller]
          by_cases hlow : value.money < minimumPermitted (w.db.dossier a).row
          · simp [heligible, hseller, hlow]
          · simp only [heligible, hseller, hlow, enterBid, reduceCtorEq, Bool.true_eq_false,
              Option.map_some, ne_eq, not_true_eq_false, ↓reduceIte]
    · rw [if_pos (by rw [biddable_iff] at hopen; lia), if_pos (Bool.eq_false_of_not_eq_true hopen)]

theorem placeBid_refused {e : PyError} (h : bidVerdict w.db a u amount = .error e) :
    (placeBid a u amount).atomic w = (.error e, w) := by
  unfold Tx.atomic
  rw [placeBid_run, h]

theorem run_nextPk_bind {β : Type} {pks : Dossier → List Nat} {f : Nat → Prog β}
    (hfresh : w.seq ∉ pks (w.db.dossier a)) :
    (nextPk a pks >>= f).run w = (f w.seq).run { w with seq := w.seq + 1 } := by
  have hkey : (nextPk a pks).run w = (.ok w.seq, { w with seq := w.seq + 1 }) := by
    unfold nextPk
    rw [run_draw_bind, run_query_bind, run_refuse_bind, if_neg hfresh]
    rfl
  rw [run_bind, hkey]

theorem createBid_run {value : Money} {sequenceNo : Nat}
    (hkey : w.seq ∉ (w.db.dossier a).bids.map Bid.pk)
    (hnumber : sequenceNo ∉ (w.db.dossier a).bids.map Bid.sequenceNo) (hpositive : 0 < value) :
    ∃ bid, (createBid a u value sequenceNo).run w =
      (.ok bid, ⟨w.db.amend a (.addBid bid), w.seq + 1, w.queue⟩) := by
  unfold createBid
  rw [run_nextPk_bind hkey, run_now_bind, run_query_bind, run_refuse_bind, if_neg hnumber,
    run_refuse_bind, if_neg (not_le.mpr hpositive), run_update_bind]
  exact ⟨_, rfl⟩

/-- On a sound book a bid that passes the checks is made. -/
theorem placeBid_accepted {value : BidAmount} (hbook : BidBook (w.db.dossier a))
    (hdrawn : ∀ b ∈ (w.db.dossier a).bids, b.pk < w.seq)
    (h : bidVerdict w.db a u amount = .ok value) :
    ∃ bid w', (placeBid a u amount).atomic w = (.ok bid, w') := by
  obtain ⟨hvalue, hnone, henough⟩ := verdict_ok h
  have hkey : w.seq ∉ (w.db.dossier a).bids.map Bid.pk := by
    intro hmem
    obtain ⟨b, hb, hpk⟩ := List.mem_map.mp hmem
    exact absurd (hdrawn b hb) (by omega)
  have hnumber : nextSequence (w.db.dossier a).bids ∉ (w.db.dossier a).bids.map Bid.sequenceNo := by
    rw [nextSequence_eq hbook.numbered, hbook.numbered, List.mem_range'_1]
    omega
  have hpositive : 0 < value.money := by
    have hstart := hbook.terms.starting
    have hfloor := starting_le_minimum hbook
    lia
  have hrun : ∃ bid w', (enterBid a u value (w.db.dossier a).row w.db.clock).run w = (.ok bid, w') := by
    obtain ⟨bid, hcreate⟩ := createBid_run (u := u) hkey hnumber hpositive
    unfold enterBid
    rw [run_query_bind, run_bind, hcreate]
    apply run_ok
    intro e s hx
    obtain ⟨_, _, _, hx⟩ := (quiet_when _ (quiet_record ..)).skip hx
    rw [exec_saveAuction_bind] at hx
    obtain ⟨_, _, _, hx⟩ := (quiet_record ..).skip hx
    exact absurd (exec_then_pure_error hx) (quiet_notifyOutbid ..).no_error
  obtain ⟨bid, w', hrun⟩ := hrun
  refine ⟨bid, w', ?_⟩
  unfold Tx.atomic
  rw [placeBid_run, h]
  simp only [hrun]

end Verdict

end MbararaAuction
