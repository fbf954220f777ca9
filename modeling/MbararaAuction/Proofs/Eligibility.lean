import MbararaAuction.Model.Views
import MbararaAuction.Proofs.Amounts

namespace MbararaAuction
open Transactions Queries Locking Decimals

seal Tx.Exec

section Messages

/-- The bid is rejected, and not for its amount. -/
def RejectedOtherwise (a : AuctionId) (u : UserId) (amount : Number) (w : World Database Nat) : Prop :=
  ∃ e w', (placeBid a u amount).atomic w = (.error e, w') ∧
    ∀ message ∈ amountMessages (minimumPermitted (w.db.dossier a).row), e ≠ .bidRejected message

def Accepted (a : AuctionId) (u : UserId) (amount : Number) (w : World Database Nat) : Prop :=
  ∃ bid w', (placeBid a u amount).atomic w = (.ok bid, w')

variable {s : Database} {a : AuctionId} {u : UserId} {amount : Number} {w : World Database Nat}

/-- The texts of the other rejections differ from those about the amount. -/
theorem objection_message {message : String} (h : objection s a u = some message) (minimum : Money) :
    message ∉ amountMessages minimum := by
  -- The last text names the minimum; its first nine characters are enough.
  have hstart : ∀ text : String, text.toList.take 9 ≠ "Your bid ".toList →
      text ≠ s!"Your bid must be at least {moneyStr minimum}." := by
    intro text htext he
    apply htext
    rw [he]
    simp [toString, String.toList_append]
  unfold objection at h
  unfold amountMessages
  simp only [List.mem_cons, List.not_mem_nil, or_false, not_or]
  split at h
  · cases h
    exact ⟨by decide, by decide, by decide, hstart _ (by decide)⟩
  split at h
  · cases h
    exact ⟨by decide, by decide, by decide, hstart _ (by decide)⟩
  split at h
  · cases h
    exact ⟨by decide, by decide, by decide, hstart _ (by decide)⟩
  split at h
  · cases h
    exact ⟨by decide, by decide, by decide, hstart _ (by decide)⟩
  · cases h

end Messages

section Agreement
variable {s : Database} {a : AuctionId} {u : UserId} {amount : Number} {value : BidAmount}
variable {w : World Database Nat} {profile : BidderProfile}

/-- A bid that nothing speaks against is made or is too low. -/
theorem unopposed (hvalue : validateAmount amount = .ok value) (hnone : objection s a u = none) :
    bidVerdict s a u amount = if value.money < minimumPermitted (s.dossier a).row then
      .error (.bidRejected
        s!"Your bid must be at least {moneyStr (minimumPermitted (s.dossier a).row)}.")
    else .ok value := by
  unfold bidVerdict
  rw [hvalue, hnone]

/-- The verdict on an amount that is valid in itself. -/
theorem rejectedOtherwise_iff (hbook : BidBook (w.db.dossier a))
    (hdrawn : ∀ b ∈ (w.db.dossier a).bids, b.pk < w.seq)
    (hvalue : validateAmount amount = .ok value) :
    RejectedOtherwise a u amount w ↔ objection w.db a u ≠ none := by
  cases hobjection : objection w.db a u with
  | some message =>
    have hverdict : bidVerdict w.db a u amount = .error (.bidRejected message) := by
      unfold bidVerdict
      rw [hvalue, hobjection]
    refine iff_of_true ⟨_, w, placeBid_refused hverdict, ?_⟩ nofun
    rintro other hother ⟨⟩
    exact objection_message hobjection _ hother
  | none =>
    refine iff_of_false ?_ (not_not.mpr rfl)
    rintro ⟨e, w', hatomic, hother⟩
    have hverdict := unopposed hvalue hobjection
    by_cases hlow : value.money < minimumPermitted (w.db.dossier a).row
    · rw [if_pos hlow] at hverdict
      rw [placeBid_refused hverdict] at hatomic
      cases hatomic
      exact hother _ (by simp [amountMessages]) rfl
    · rw [if_neg hlow] at hverdict
      obtain ⟨bid, v, haccepted⟩ := placeBid_accepted hbook hdrawn hverdict
      rw [haccepted] at hatomic
      cases hatomic

/-- Where nothing speaks against the bidder, the amount decides. -/
theorem accepted_iff (hbook : BidBook (w.db.dossier a))
    (hdrawn : ∀ b ∈ (w.db.dossier a).bids, b.pk < w.seq) (hnone : objection w.db a u = none)
    (hvalue : validateAmount amount = .ok value) :
    Accepted a u amount w ↔ minimumPermitted (w.db.dossier a).row ≤ value.money := by
  have hverdict := unopposed hvalue hnone
  by_cases hlow : value.money < minimumPermitted (w.db.dossier a).row
  · rw [if_pos hlow] at hverdict
    refine iff_of_false ?_ (not_le.mpr hlow)
    rintro ⟨bid, w', hatomic⟩
    rw [placeBid_refused hverdict] at hatomic
    cases hatomic
  · rw [if_neg hlow] at hverdict
    exact iff_of_true (placeBid_accepted hbook hdrawn hverdict) (not_lt.mp hlow)

/-- The page asks what the engine asks. -/
theorem canBid_objection (hrole : (s.users u).role = .bidder)
    (hprofile : s.bidderProfiles u = some profile) :
    canBid s (.user u (s.users u)) (s.dossier a).row = .ok (objection s a u).isNone := by
  unfold canBid objection
  simp only [hrole, hprofile, true_and]
  cases (s.dossier a).row.isBiddable s.clock with
  | false => rfl
  | true =>
    cases profile.isEligibleToBid (s.users u).isActive with
    | false => rfl
    | true =>
      by_cases hseller : u = (s.dossier a).row.seller
      · simp [hseller]
      · simp [hseller]

/-- What the page shows a bidder. -/
theorem detail_shows {viewer : Viewer} {page : Page} (h : detail s viewer a = .ok page) :
    canBid s viewer (s.dossier a).row = .ok page.canBid ∧
      page.minimumPermitted = minimumPermitted (s.dossier a).row := by
  unfold detail at h
  simp only [bind, Except.bind, pure, Except.pure] at h
  split at h
  · cases h
  split at h
  · cases h
  cases hcan : canBid s viewer (s.dossier a).row with
  | error e =>
    rw [hcan] at h
    cases h
  | ok shown =>
    rw [hcan] at h
    cases hhistory : getBidHistory s a viewer with
    | error e =>
      rw [hhistory] at h
      cases h
    | ok history =>
      rw [hhistory] at h
      cases h
      exact ⟨rfl, rfl⟩

/-- The number as a page shows it. -/
def columnNumber (m : Money) : Number := .decimal (.finite (decide (m < 0)) m.natAbs (-2))

theorem columnNumber_valid {m : Money} (hbound : m < maxBidAmount) :
    ∃ value, validateAmount (columnNumber m) = .ok value ∧ value.money = m := by
  have hcents : cents (decide (m < 0)) m.natAbs (-2) = m :=
    (cents_scaled (column m)).trans ofScaled_scaled
  refine ⟨⟨decide (m < 0), m.natAbs, -2, le_refl _, by rwa [hcents]⟩, ?_, hcents⟩
  rw [validateAmount_eq]
  simp only [columnNumber, Number.finite, hcents, hbound, le_refl, ↓reduceDIte]

end Agreement

section Runs
variable {db : Database} {before : List (Site × SiteEvent)} {c : Site} {a : AuctionId} {u : UserId}
variable {profile : BidderProfile}

/-- In every state of every run, at any time, the page offers a bidder to bid exactly when
`place_bid` has nothing but the amount to reject; and where it does, it takes exactly the
valid amounts that reach the minimum shown, the minimum itself among them. -/
theorem page_bids_agree (hfresh : Fresh (db.dossier a)) (hrun : SiteRun db before c) (t : Time)
    (hrole : (c.world.db.users u).role = .bidder)
    (hprofile : c.world.db.bidderProfiles u = some profile) :
    ∃ shown, canBid (c.world.asOf t).db (.user u (c.world.db.users u)) (c.dossier a).row = .ok shown ∧
      (shown = true → ∀ amount, ¬ RejectedOtherwise a u amount (c.world.asOf t)) ∧
      (∀ amount value, validateAmount amount = .ok value →
        (shown = true ↔ ¬ RejectedOtherwise a u amount (c.world.asOf t))) ∧
      ∀ page, detail (c.world.asOf t).db (.user u (c.world.db.users u)) a = .ok page →
        page.canBid = shown ∧
        (page.canBid = true → page.minimumPermitted < maxBidAmount →
          (∀ amount value, validateAmount amount = .ok value →
            (Accepted a u amount (c.world.asOf t) ↔ page.minimumPermitted ≤ value.money)) ∧
          Accepted a u (columnNumber page.minimumPermitted) (c.world.asOf t)) := by
  have hbook : BidBook ((c.world.asOf t).db.dossier a) := run_bidBook hrun hfresh
  have hdrawn : ∀ b ∈ ((c.world.asOf t).db.dossier a).bids, b.pk < (c.world.asOf t).seq :=
    keys_drawn hrun hfresh.empty.1
  have hcan := canBid_objection (s := (c.world.asOf t).db) (a := a) hrole hprofile
  have hshown : (objection (c.world.asOf t).db a u).isNone = true ↔
      objection (c.world.asOf t).db a u = none := Option.isNone_iff_eq_none
  refine ⟨_, hcan, ?_, ?_, ?_⟩
  · intro hnone amount hrejected
    cases hvalue : validateAmount amount with
    | error e =>
      obtain ⟨e', w', hatomic, hother⟩ := hrejected
      have hverdict : bidVerdict (c.world.asOf t).db a u amount = .error e := by
        unfold bidVerdict
        rw [hvalue]
      rw [placeBid_refused hverdict] at hatomic
      cases hatomic
      obtain ⟨message, hmem, hmessage⟩ := validateAmount_error hvalue _
      exact hother message hmem hmessage
    | ok value => exact (rejectedOtherwise_iff hbook hdrawn hvalue).mp hrejected (hshown.mp hnone)
  · intro amount value hvalue
    rw [rejectedOtherwise_iff hbook hdrawn hvalue, not_not]
    exact hshown
  · intro page hpage
    obtain ⟨hpageCan, hminimum⟩ := detail_shows hpage
    have hsame : page.canBid = (objection (c.world.asOf t).db a u).isNone :=
      Except.ok.inj (hpageCan.symm.trans hcan)
    refine ⟨hsame, fun hoffered hbound => ?_⟩
    have hnone := hshown.mp (hsame.symm.trans hoffered)
    rw [hminimum] at hbound ⊢
    refine ⟨fun amount value hvalue => accepted_iff hbook hdrawn hnone hvalue, ?_⟩
    obtain ⟨value, hvalue, hmoney⟩ := columnNumber_valid hbound
    exact (accepted_iff hbook hdrawn hnone hvalue).mpr hmoney.ge

/-- After a bid of 600000 the page offers another bidder to bid 610000, which is accepted. -/
theorem page_bids_agree_sample : ∃ before c page, SiteRun sampleDatabase before c ∧
    detail (c.world.asOf 0).db (.user 3 (c.world.db.users 3)) 0 = .ok page ∧ page.canBid = true ∧
    page.minimumPermitted = 61000000 ∧ Accepted 0 3 (columnNumber 61000000) (c.world.asOf 0) := by
  obtain ⟨m, hm⟩ := served_moment sampleDatabase (opening ++ [.call (.placeBid 0 2 (.int 600000))])
    (fun w => (w.db.users 3).role == .bidder &&
      w.db.bidderProfiles 3 == some ⟨.verified, .active, none, none, 0⟩ &&
      (detail (w.asOf 0).db (.user 3 (w.db.users 3)) 0).toOption.any
        (fun page => page.canBid && page.minimumPermitted == 61000000)) (by decide +kernel)
  simp only [Bool.and_eq_true, beq_iff_eq] at hm
  obtain ⟨⟨hrole, hprofile⟩, hpage⟩ := hm
  cases hshown : detail (m.now.world.asOf 0).db (.user 3 (m.now.world.db.users 3)) 0 with
  | error e =>
    rw [hshown] at hpage
    cases hpage
  | ok page =>
    rw [hshown] at hpage
    simp only [Except.toOption, Option.any_some, Bool.and_eq_true, beq_iff_eq] at hpage
    obtain ⟨hoffered, hminimum⟩ := hpage
    obtain ⟨_, _, _, _, hagree⟩ := page_bids_agree sample_fresh m.run 0 hrole hprofile
    have haccepted := ((hagree page hshown).2 hoffered (by rw [hminimum]; decide)).2
    rw [hminimum] at haccepted
    exact ⟨m.past, m.now, page, m.run, hshown, hoffered, hminimum, haccepted⟩

end Runs

end MbararaAuction
