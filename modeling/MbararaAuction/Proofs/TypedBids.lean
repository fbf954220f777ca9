import MbararaAuction.Proofs.DecimalTexts
import MbararaAuction.Proofs.Eligibility
import MbararaAuction.Proofs.ServerErrors

namespace MbararaAuction
open Transactions

seal Tx.Exec

section Page
variable (parseDatetime : String → Option Time)

/-- What a bid that a user posts alone is answered with, and the world after it. -/
def postBid (w : World Database Nat) (u : UserId) (a : AuctionId) (raw : String) :
    Except PyError (Value ⊕ Answer) × World Database Nat :=
  ((website parseDatetime).body (.post (some u) (.placeBid a raw))).run (website parseDatetime) w

/-- The page of an auction again, with one message. -/
def auctionPage (a : AuctionId) (level : MessageLevel) (text : String) :
    Except PyError (Value ⊕ Answer) := .ok (.inr (.redirect (.auction a) [⟨level, text⟩]))

/-- The answer of a request that has ended. -/
def answered : Except PyError (Value ⊕ Answer) → Option Answer
  | .ok (.inr page) => some page
  | _ => none

theorem eq_of_answered {out : Except PyError (Value ⊕ Answer)} {page : Answer}
    (h : answered out = some page) : out = .ok (.inr page) := by
  unfold answered at h
  split at h
  · cases h
    rfl
  · cases h

end Page

section Answers
variable {parseDatetime : String → Option Time} {w : World Database Nat} {u : UserId} {a : AuctionId}
  {raw : String}

/-- Who may use the page: an active user with the role, and an auction that exists. -/
structure Bidder (s : Database) (u : UserId) (a : AuctionId) : Prop where
  user : u ∈ s.userPks ∧ (s.users u).isActive = true
  role : ((s.users u).isOfficerOrAdmin || (s.users u).role == .bidder) = true
  auction : a ∈ s.auctionPks

theorem postBid_run : postBid parseDatetime w u a raw =
    (((placeBidView (some u) a raw).run engine w).1.map Sum.inr,
      ((placeBidView (some u) a raw).run engine w).2) :=
  Script.run_task ..

/-- The page parses the text first. -/
theorem postBid_unread (hbidder : Bidder w.db u a) (hraw : Decimal.ofText raw = none) :
    postBid parseDatetime w u a raw = (auctionPage a .error "Enter a valid bid amount.", w) := by
  have huser := requestUser_eq hbidder.user
  rw [postBid_run]
  simp only [placeBidView, roleRequired, testRequired, Script.run, huser, hbidder.role, getAuction,
    if_pos hbidder.auction, hraw, back, ↓reduceIte]
  rfl

/-- How the page answers what the service does. -/
def bidAnswer (a : AuctionId) (d : Decimal) (out : Except PyError Bid) :
    Except PyError (Value ⊕ Answer) :=
  match out with
  | .ok _ => auctionPage a .success s!"Bid of {d.text} placed successfully."
  | .error e =>
    match bidRejectedText e with
    | some text => auctionPage a .error text
    | none => .error e

/-- What is parsed is bid. -/
theorem postBid_read {d : Decimal} (hbidder : Bidder w.db u a) (hraw : Decimal.ofText raw = some d) :
    postBid parseDatetime w u a raw =
      (bidAnswer a d ((placeBid a u (.decimal d)).atomic w).1,
        ((placeBid a u (.decimal d)).atomic w).2) := by
  have huser := requestUser_eq hbidder.user
  have hservice : (engine.body (.placeBid a u (.decimal d))).run engine w =
      (((placeBid a u (.decimal d)).atomic w).1.map Value.bid,
        ((placeBid a u (.decimal d)).atomic w).2) := (Task.run_single ..).trans (Tx.atomic_map ..)
  rw [postBid_run]
  simp only [placeBidView, roleRequired, testRequired, Script.run, huser, hbidder.role, getAuction,
    if_pos hbidder.auction, hraw, tryCall, hservice, ↓reduceIte]
  cases (placeBid a u (.decimal d)).atomic w with
  | mk out w' =>
    cases out with
    | ok bid => rfl
    | error e =>
      simp only [proceed, Except.map, bidAnswer]
      cases bidRejectedText e with
      | none => rfl
      | some text => rfl

end Answers

section Quotes
variable {s : Database} {a : AuctionId} {u : UserId} {amount : Number} {message quoted : String}

/-- The rejection that names the least amount. -/
def minimumQuote (quoted : String) : String := s!"Your bid must be at least {quoted}."

theorem minimumQuote_toList : (minimumQuote quoted).toList =
    "Your bid ".toList ++ ("must be at least ".toList ++ (quoted.toList ++ ['.'])) := by
  change ("Your bid must be at least " ++ quoted ++ ".").toList = _
  rw [String.toList_append, String.toList_append, List.append_assoc]
  rfl

theorem minimumQuote_inj {other : String} (h : minimumQuote quoted = minimumQuote other) :
    quoted = other := by
  have hchars := congrArg String.toList h
  rw [minimumQuote_toList, minimumQuote_toList, List.append_cancel_left_eq,
    List.append_cancel_left_eq, List.append_cancel_right_eq] at hchars
  exact String.toList_inj.mp hchars

/-- The other rejections begin differently. -/
theorem ne_minimumQuote (h : message.toList.take 9 ≠ "Your bid ".toList) :
    message ≠ minimumQuote quoted := by
  intro he
  apply h
  rw [he, minimumQuote_toList]
  exact List.take_left' rfl

theorem validateAmount_quotes (h : validateAmount amount = .error (.bidRejected message)) :
    message ≠ minimumQuote quoted := by
  apply ne_minimumQuote
  unfold validateAmount at h
  dsimp only at h
  split at h
  · split at h
    · split at h
      · cases h
      · cases h
        decide
    · cases h
      decide
  · cases h
    decide

theorem objection_quotes (h : objection s a u = some message) : message ≠ minimumQuote quoted := by
  apply ne_minimumQuote
  unfold objection at h
  split at h
  · cases h
    decide
  split at h
  · cases h
    decide
  split at h
  · cases h
    decide
  split at h
  · cases h
    decide
  · cases h

/-- A verdict that names an amount names the minimum, and nothing else speaks against the bid. -/
theorem verdict_quotes (h : bidVerdict s a u amount = .error (.bidRejected (minimumQuote quoted))) :
    objection s a u = none ∧ quoted = moneyStr (minimumPermitted (s.dossier a).row) := by
  unfold bidVerdict at h
  split at h
  · next hvalue =>
    cases h
    exact absurd rfl (validateAmount_quotes hvalue)
  · next hobjection =>
    cases h
    exact absurd rfl (objection_quotes hobjection)
  · next hobjection =>
    split at h
    · injection h with h
      injection h with h
      exact ⟨hobjection, (minimumQuote_inj h).symm⟩
    · cases h

end Quotes

section Placed
variable {parseDatetime : String → Option Time} {w : World Database Nat} {u : UserId} {a : AuctionId}
  {raw quoted : String} {d : Decimal} {value : BidAmount} {level : MessageLevel} {text : String}

/-- The bid is placed and announced as `shown`: it is the last of the book, and the highest. -/
def Placed (parseDatetime : String → Option Time) (w : World Database Nat) (u : UserId)
    (a : AuctionId) (raw shown : String) (amount : Money) : Prop :=
  ∃ bid w', postBid parseDatetime w u a raw =
      (auctionPage a .success s!"Bid of {shown} placed successfully.", w') ∧ bid.amount = amount ∧
    (w'.db.dossier a).bids = (w.db.dossier a).bids ++ [bid] ∧
    (w'.db.dossier a).row.currentHighestBid = some amount

/-- Nobody else is sent back to the page of the auction. -/
theorem Bidder.of_answer (h : (postBid parseDatetime w u a raw).1 = auctionPage a level text) :
    Bidder w.db u a := by
  rw [postBid_run] at h
  simp only [placeBidView, roleRequired, testRequired, Script.run, requestUser,
    Option.bind_some] at h
  by_cases huser : u ∈ w.db.userPks ∧ (w.db.users u).isActive = true
  · by_cases hrole : ((w.db.users u).isOfficerOrAdmin || (w.db.users u).role == .bidder) = true
    · by_cases hauction : a ∈ w.db.auctionPks
      · exact ⟨huser, hrole, hauction⟩
      · simp only [if_pos huser, if_pos hrole, Script.run, getAuction, if_neg hauction] at h
        cases h
    · simp only [if_pos huser, if_neg hrole, Script.run] at h
      cases h
  · simp only [if_neg huser, Script.run] at h
    cases h

theorem postBid_low (hbidder : Bidder w.db u a) (hraw : Decimal.ofText raw = some d)
    (hnone : objection w.db a u = none) (hvalue : validateAmount (.decimal d) = .ok value)
    (hlow : value.money < minimumPermitted (w.db.dossier a).row) :
    postBid parseDatetime w u a raw =
      (auctionPage a .error (minimumQuote (moneyStr (minimumPermitted (w.db.dossier a).row))), w) := by
  have hverdict := (unopposed hvalue hnone).trans (if_pos hlow)
  rw [postBid_read hbidder hraw, placeBid_refused hverdict]
  rfl

theorem postBid_high (hbook : BidBook (w.db.dossier a))
    (hdrawn : ∀ b ∈ (w.db.dossier a).bids, b.pk < w.seq) (hbidder : Bidder w.db u a)
    (hraw : Decimal.ofText raw = some d) (hnone : objection w.db a u = none)
    (hvalue : validateAmount (.decimal d) = .ok value)
    (henough : minimumPermitted (w.db.dossier a).row ≤ value.money) :
    Placed parseDatetime w u a raw d.text value.money := by
  have hverdict := (unopposed hvalue hnone).trans (if_neg (not_lt.mpr henough))
  obtain ⟨bid, w', hatomic, hamount, hbids, hhighest⟩ := placeBid_exact hbook hdrawn hverdict
  refine ⟨bid, w', ?_, hamount, hbids, by rw [hhighest, hamount]⟩
  rw [postBid_read hbidder hraw, hatomic]
  rfl

/-- The least amount, typed in as it is quoted, is placed. -/
theorem postBid_minimum {minimum : Money} (hbook : BidBook (w.db.dossier a))
    (hdrawn : ∀ b ∈ (w.db.dossier a).bids, b.pk < w.seq) (hbidder : Bidder w.db u a)
    (hnone : objection w.db a u = none) (hminimum : minimumPermitted (w.db.dossier a).row = minimum)
    (hbound : minimum < maxBidAmount) :
    Placed parseDatetime w u a (moneyStr minimum) (moneyStr minimum) minimum := by
  have hpositive : 0 < minimum := by
    rw [← hminimum]
    exact lt_of_lt_of_le hbook.terms.starting (starting_le_minimum hbook)
  have hfits : minimum.natAbs < 10 ^ 14 := by
    change minimum < 100000000000000 at hbound
    lia
  obtain ⟨value, hvalue, hmoney⟩ := columnNumber_valid hbound
  have hplaced : Placed parseDatetime w u a (moneyStr minimum) _ value.money :=
    postBid_high hbook hdrawn hbidder (ofText_moneyStr hfits) hnone hvalue
      (hminimum.trans hmoney.symm).le
  rw [hmoney, Decimal.text, ← moneyStr_eq] at hplaced
  exact hplaced

/-- What is quoted is the least amount, and quoting it changes nothing. -/
theorem postBid_quotes (hbook : BidBook (w.db.dossier a))
    (hdrawn : ∀ b ∈ (w.db.dossier a).bids, b.pk < w.seq)
    (h : (postBid parseDatetime w u a raw).1 = auctionPage a .error (minimumQuote quoted)) :
    (postBid parseDatetime w u a raw).2 = w ∧ objection w.db a u = none ∧
      quoted = moneyStr (minimumPermitted (w.db.dossier a).row) := by
  have hbidder := Bidder.of_answer h
  have hpage : ∀ {other : String}, auctionPage a .error other = auctionPage a .error (minimumQuote quoted) →
      other = minimumQuote quoted := by
    intro other hsame
    simpa [auctionPage] using hsame
  cases hraw : Decimal.ofText raw with
  | none =>
    rw [postBid_unread hbidder hraw] at h
    exact absurd (hpage h) (ne_minimumQuote (by decide))
  | some d =>
    rw [postBid_read hbidder hraw] at h ⊢
    cases hverdict : bidVerdict w.db a u (.decimal d) with
    | error e =>
      obtain ⟨message, rfl⟩ := verdict_rejected hverdict
      rw [placeBid_refused hverdict] at h ⊢
      rw [hpage h] at hverdict
      exact ⟨rfl, verdict_quotes hverdict⟩
    | ok value =>
      obtain ⟨bid, w', hatomic, _⟩ := placeBid_exact hbook hdrawn hverdict
      rw [hatomic] at h
      simp [bidAnswer, auctionPage] at h

end Placed

section Runs
variable {parseDatetime : String → Option Time} {db : Database} {u : UserId} {a : AuctionId}
  {raw quoted : String}

/-- At any moment a bidder whose text is refused for its amount learns the least amount that
is not: alone, a text that writes less is refused with the same words, one that writes as
much is booked, and the words themselves, typed in, book the amount that they quote. -/
theorem refused_bids_can_be_raised (hfresh : ∀ a, Fresh (db.dossier a))
    (m : (website parseDatetime).Moment db)
    (hrefused : (postBid parseDatetime m.now.world u a raw).1 =
      auctionPage a .error (minimumQuote quoted)) :
    (postBid parseDatetime m.now.world u a raw).2 = m.now.world ∧
    (∀ text d value, Decimal.ofText text = some d → validateAmount (.decimal d) = .ok value →
      (value.money < minimumPermitted (m.rows.dossier a).row →
        postBid parseDatetime m.now.world u a text =
          (auctionPage a .error (minimumQuote quoted), m.now.world)) ∧
      (minimumPermitted (m.rows.dossier a).row ≤ value.money →
        Placed parseDatetime m.now.world u a text d.text value.money)) ∧
    (minimumPermitted (m.rows.dossier a).row < maxBidAmount →
      Placed parseDatetime m.now.world u a quoted quoted
        (minimumPermitted (m.rows.dossier a).row)) := by
  have hbook : BidBook (m.now.world.db.dossier a) := (website_books hfresh m a).1
  have hdrawn : ∀ b ∈ (m.now.world.db.dossier a).bids, b.pk < m.now.world.seq := by
    obtain ⟨n, hn, _⟩ := website_refines_services m
    rw [← hn]
    exact keys_drawn n.run (hfresh a).empty.1
  have hbidder := Bidder.of_answer hrefused
  obtain ⟨hsame, hnone, hquoted⟩ := postBid_quotes hbook hdrawn hrefused
  refine ⟨hsame, ?_, ?_⟩
  · intro text d value hraw hvalue
    refine ⟨fun hlow => ?_, postBid_high hbook hdrawn hbidder hraw hnone hvalue⟩
    rw [hquoted]
    exact postBid_low hbidder hraw hnone hvalue hlow
  · intro hbound
    rw [hquoted]
    exact postBid_minimum hbook hdrawn hbidder hnone rfl hbound

/-- A bid of 1000 on the sample listing is refused, and the 500000.00 quoted is booked. -/
theorem refused_bids_can_be_raised_sample : ∃ m : (website fun _ => none).Moment sampleDatabase,
    (postBid (fun _ => none) m.now.world 2 0 "1000").1 =
      auctionPage 0 .error (minimumQuote "500000.00") ∧
    Placed (fun _ => none) m.now.world 2 0 "500000.00" "500000.00" 50000000 := by
  obtain ⟨m, hm⟩ := scheduled_moment (website fun _ => none) sampleDatabase
    (posts 0 1 (.submitListing 0) 10 ++ posts 1 0 (.approveListing 0 "") 20 ++
      posts 2 0 (.startNow 0) 16)
    (fun c => minimumPermitted (c.world.db.dossier 0).row == 50000000 &&
      answered (postBid (fun _ => none) c.world 2 0 "1000").1 ==
        some (.redirect (.auction 0) [⟨.error, minimumQuote "500000.00"⟩])) (by decide +kernel)
  simp only [Bool.and_eq_true, beq_iff_eq] at hm
  obtain ⟨hminimum, hanswer⟩ := hm
  have hrow : minimumPermitted (m.rows.dossier 0).row = 50000000 := hminimum
  have hrefused := eq_of_answered hanswer
  obtain ⟨_, _, hraised⟩ := refused_bids_can_be_raised (fun _ => sample_fresh) m hrefused
  rw [hrow] at hraised
  exact ⟨m, hrefused, hraised (by decide)⟩

end Runs

end MbararaAuction
