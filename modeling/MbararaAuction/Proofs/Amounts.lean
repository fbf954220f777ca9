import MbararaAuction.Decimals.Arithmetic
import MbararaAuction.Proofs.PlaceBid

namespace Transactions
open MbararaAuction

/-- The same world at the time `t`. -/
def World.asOf (t : Time) (w : World Database Nat) : World Database Nat :=
  { w with db := { w.db with clock := t } }

end Transactions

namespace MbararaAuction
open Transactions Queries Decimals

seal Tx.Exec

section Amounts
variable {amount : Number} {value : BidAmount}

/-- The finite number that the caller passes, if it passes one. -/
def Number.finite : Number → Option Dec
  | int n => some (.ofScaled n 0)
  | decimal (.finite negative coefficient exponent) => some ⟨negative, coefficient, exponent⟩
  | decimal (.infinity _) | decimal (.nan _) | bool _ | other => none

def BidAmount.dec (value : BidAmount) : Dec := ⟨value.negative, value.coefficient, value.exponent⟩

/-- What a column of money returns. -/
def column (m : Money) : Dec := .ofScaled m (-2)

theorem cents_scaled (x : Dec) : cents x.negative x.coefficient x.exponent = x.scaled (-2) := by
  unfold cents Dec.scaled Dec.signed
  rw [sub_neg_eq_add]
  cases x.negative <;> simp

/-- The number of hundredths is exact. -/
theorem money_value (value : BidAmount) : value.dec.value = value.money / 100 := by
  have hmoney : value.money = value.dec.scaled (-2) := cents_scaled value.dec
  rw [← scaled_value (e := -2) value.scale, hmoney]
  norm_num [div_eq_mul_inv]

/-- `_validate_amount` looks only at the number. -/
theorem validateAmount_eq (amount : Number) : validateAmount amount = match amount.finite with
    | none => .error (.bidRejected "Enter a valid bid amount.")
    | some x =>
      if hs : -2 ≤ x.exponent then
        if hb : cents x.negative x.coefficient x.exponent < maxBidAmount then
          .ok ⟨x.negative, x.coefficient, x.exponent, hs, hb⟩
        else .error (.bidRejected "That bid amount is too large.")
      else .error (.bidRejected "Bid amounts can have at most 2 decimal places.") := by
  cases amount with
  | int | bool | other => rfl
  | decimal d => cases d <;> rfl

/-- What it lets through is the number that was passed. -/
theorem validateAmount_ok (h : validateAmount amount = .ok value) : amount.finite = some value.dec := by
  rw [validateAmount_eq] at h
  split at h
  · cases h
  · split at h
    · split at h
      · cases h
        assumption
      · cases h
    · cases h

/-- What `place_bid` says about the amount of a bid. -/
def amountMessages (minimum : Money) : List String :=
  ["Enter a valid bid amount.", "Bid amounts can have at most 2 decimal places.",
    "That bid amount is too large.", s!"Your bid must be at least {moneyStr minimum}."]

theorem validateAmount_error {e : PyError} (h : validateAmount amount = .error e) (minimum : Money) :
    ∃ message ∈ amountMessages minimum, e = .bidRejected message := by
  rw [validateAmount_eq] at h
  unfold amountMessages
  split at h
  · cases h
    exact ⟨_, by simp, rfl⟩
  · split at h
    · split at h
      · cases h
      · cases h
        exact ⟨_, by simp, rfl⟩
    · cases h
      exact ⟨_, by simp, rfl⟩

end Amounts

theorem verdict_rejected {s : Database} {a : AuctionId} {u : UserId} {e : PyError}
    (h : bidVerdict s a u amount = .error e) : ∃ message, e = .bidRejected message := by
  unfold bidVerdict at h
  split at h
  · cases h
    obtain ⟨message, _, hmessage⟩ := validateAmount_error ‹_› 0
    exact ⟨message, hmessage⟩
  · cases h
    exact ⟨_, rfl⟩
  · split at h
    · cases h
      exact ⟨_, rfl⟩
    · cases h

/-- The sums of two columns of money fit the default context. -/
theorem column_add {m n : Money} (hm : m.natAbs < 10 ^ 14) (hn : n.natAbs < 10 ^ 14) :
    (column m).add 28 (column n) = column (m + n) := by
  apply ofScaled_add
  have hroom : 10 ^ 14 + 10 ^ 14 ≤ 10 ^ 28 := by decide
  have habs := Int.natAbs_add_le m n
  omega

section Runs
variable {db : Database} {before : List (Site × SiteEvent)} {c : Site} {a : AuctionId}
variable {w : World Database Nat} {u : UserId} {amount : Number} {value : BidAmount}

/-- What passes the checks is stored as it is. -/
theorem placeBid_exact (hbook : BidBook (w.db.dossier a))
    (hdrawn : ∀ b ∈ (w.db.dossier a).bids, b.pk < w.seq)
    (h : bidVerdict w.db a u amount = .ok value) :
    ∃ bid w', (placeBid a u amount).atomic w = (.ok bid, w') ∧ bid.amount = value.money ∧
      (w'.db.dossier a).bids = (w.db.dossier a).bids ++ [bid] ∧
      (w'.db.dossier a).row.currentHighestBid = some bid.amount := by
  obtain ⟨bid, w', hatomic⟩ := placeBid_accepted hbook hdrawn h
  obtain ⟨booked, _, _, hbooked, _, hamount, _, _, _, hwrites⟩ := placeBid_seen (exec_of_atomic hatomic)
  rw [(verdict_ok h).1] at hbooked
  cases hbooked
  refine ⟨bid, w', hatomic, hamount, ?_, ?_⟩
  · rw [hwrites.became.here]
    rfl
  · rw [hwrites.became.here, hamount]
    rfl

/-- In every state of every run, at any time, `place_bid` takes any value at all: it rejects
it and changes nothing, or stores exactly the number that was passed. The sums that it makes
of two columns are exact as well. -/
theorem bid_amounts_exact (hfresh : Fresh (db.dossier a)) (hrun : SiteRun db before c) (t : Time)
    (u : UserId) (amount : Number) :
    ((∃ message, (placeBid a u amount).atomic (c.world.asOf t) =
        (.error (.bidRejected message), c.world.asOf t)) ∨
      ∃ bid w' x, (placeBid a u amount).atomic (c.world.asOf t) = (.ok bid, w') ∧
        amount.finite = some x ∧ x.value = bid.amount / 100 ∧
        0 < bid.amount ∧ bid.amount < 10 ^ 14 ∧
        (w'.db.dossier a).bids = (c.dossier a).bids ++ [bid] ∧
        (w'.db.dossier a).row.currentHighestBid = some bid.amount) ∧
    ∀ m n : Money, m.natAbs < 10 ^ 14 → n.natAbs < 10 ^ 14 →
      (column m).add 28 (column n) = column (m + n) := by
  refine ⟨?_, fun m n hm hn => column_add hm hn⟩
  have hbook := run_bidBook hrun hfresh
  cases hverdict : bidVerdict (c.world.asOf t).db a u amount with
  | error e =>
    obtain ⟨message, rfl⟩ := verdict_rejected hverdict
    exact .inl ⟨message, placeBid_refused hverdict⟩
  | ok value =>
    right
    obtain ⟨bid, w', hatomic, hamount, hbids, hhighest⟩ :=
      placeBid_exact (w := c.world.asOf t) hbook (keys_drawn hrun hfresh.empty.1) hverdict
    obtain ⟨hvalue, _, henough⟩ := verdict_ok hverdict
    have hstart := hbook.terms.starting
    have hfloor := starting_le_minimum hbook
    have hbounded := value.bounded
    refine ⟨bid, w', value.dec, hatomic, validateAmount_ok hvalue, ?_, ?_, ?_, hbids, hhighest⟩
    · rw [hamount, money_value]
    · rw [hamount]
      exact lt_of_lt_of_le hstart (hfloor.trans henough)
    · rw [hamount]
      exact hbounded

/-- An offer of 6E+5 is stored as 600000.00. -/
theorem bid_amounts_exact_sample : ∃ before c bid w', SiteRun sampleDatabase before c ∧
    (placeBid 0 2 (.decimal (.finite false 6 5))).atomic (c.world.asOf 0) = (.ok bid, w') ∧
    (Dec.mk false 6 5).value = bid.amount / 100 := by
  obtain ⟨m, hm⟩ := served_moment sampleDatabase opening (fun w =>
    ((placeBid 0 2 (.decimal (.finite false 6 5))).atomic (w.asOf 0)).1.isOk) (by decide +kernel)
  rcases (bid_amounts_exact sample_fresh m.run 0 2 (.decimal (.finite false 6 5))).1 with
    ⟨message, hrejected⟩ | ⟨bid, w', x, haccepted, hx, hvalue, _⟩
  · rw [hrejected] at hm
    cases hm
  · cases hx
    exact ⟨m.past, m.now, bid, w', m.run, haccepted, hvalue⟩

end Runs

end MbararaAuction
