import Mathlib.Data.List.Dedup
import MbararaAuction.Proofs.Audit
import MbararaAuction.Proofs.Labels

namespace MbararaAuction
open Transactions Queries

seal Tx.Exec

section Links
variable {a b : AuctionId}

theorem auctionLink_injective (h : auctionLink a = auctionLink b) : a = b := by
  have hlist := congrArg String.toList h
  have hdigits : Nat.toDigits 10 a = Nat.toDigits 10 b := by
    simpa [auctionLink, String.toList_append, Nat.repr_eq_ofList_toDigits] using hlist
  rw [← Nat.ofDigitChars_ten_toDigits (n := a), hdigits, Nat.ofDigitChars_ten_toDigits]

theorem disputeLink_ne (a pk : Nat) : s!"/disputes/{pk}/" ≠ auctionLink a := by
  intro h
  have hsecond := congrArg (fun text => text.toList[1]?) h
  simp [auctionLink, toString] at hsecond

theorem blankLink_ne (a : AuctionId) : "" ≠ auctionLink a := by
  intro h
  have hsecond := congrArg (fun text => text.toList[1]?) h
  simp [auctionLink, toString] at hsecond

end Links

/-- The rows that the rows of the auctions refer to exist. -/
structure Referenced (s : Database) : Prop where
  sellers : ∀ a ∈ s.auctionPks, (s.sellerProfiles (s.dossier a).row.seller).isSome = true
  bidders : ∀ a ∈ s.auctionPks, ∀ b ∈ (s.dossier a).bids, (s.bidderProfiles b.bidder).isSome = true

/-- `chr` has a letter for each of the bidders. -/
def Countable (bidders : List UserId) : Prop := 'A'.toNat + bidders.dedup.length ≤ 0x110000

/-- A bidder has a bidder profile. -/
def Profiled (s : Database) (u : UserId) : Prop :=
  (s.users u).role = .bidder → (s.bidderProfiles u).isSome = true

/-- The seller, or staff. -/
def Insider (s : Database) (row : Auction) (u : UserId) : Prop :=
  u = row.seller ∨ (s.users u).isOfficerOrAdmin = true

/-- The page of an auction with the row `row` is there for `u`, whatever the bids are. -/
def Reads (s : Database) (row : Auction) (u : UserId) : Prop :=
  (publiclyVisible row.status = true ∨ Insider s row u) ∧
    (row.isBiddable s.clock = true → Profiled s u)

section Page
variable {s : Database} {a : AuctionId} {u : UserId}

theorem firstBidders_length (bids : List Bid) :
    (firstBidders bids).length = (bids.map Bid.bidder).dedup.length := by
  refine List.Perm.length_eq ?_
  rw [List.perm_ext_iff_of_nodup (firstBidders_nodup bids) (List.nodup_dedup _)]
  intro u
  rw [mem_firstBidders, List.mem_dedup]

theorem getBidHistory_isOk (s : Database) (a : AuctionId) (viewer : Viewer) :
    (getBidHistory s a viewer).isOk = true ↔ Countable ((s.dossier a).bids.map Bid.bidder) := by
  rw [getBidHistory_entries, firstBidders_length, Countable]
  split
  · next hroom => exact iff_of_true rfl hroom
  · next hroom => exact iff_of_false Bool.false_ne_true hroom

theorem canBid_isOk (s : Database) (row : Auction) (u : UserId) :
    (canBid s (.user u (s.users u)) row).isOk = true ↔
      (row.isBiddable s.clock = true → Profiled s u) := by
  unfold canBid Profiled
  dsimp only
  split
  · next hopen =>
    cases hprofile : s.bidderProfiles u with
    | none => simp [hopen, Except.isOk, Except.toBool]
    | some profile => simp [Except.isOk, Except.toBool]
  · next hclosed => exact iff_of_true rfl fun hopen hrole => absurd ⟨hrole, hopen⟩ hclosed

/-- The page of an auction is shown to `u` or answers with a failure. -/
theorem detail_isOk (ha : a ∈ s.auctionPks) (href : Referenced s) :
    (detail s (.user u (s.users u)) a).isOk = true ↔
      Reads s (s.dossier a).row u ∧ Countable ((s.dossier a).bids.map Bid.bidder) := by
  have howner : isOwner s (.user u (s.users u)) (s.dossier a).row = true ↔
      u = (s.dossier a).row.seller := by
    have hseller := href.sellers a ha
    simp only [isOwner, Viewer.pk, Bool.and_eq_true, beq_iff_eq]
    exact ⟨And.right, fun he => ⟨he ▸ hseller, he⟩⟩
  rw [← getBidHistory_isOk s a (.user u (s.users u)), Reads, ← canBid_isOk, Insider, ← howner]
  unfold detail
  rw [if_neg (not_not.mpr ha)]
  dsimp only [bind, Except.bind, pure, Except.pure]
  split
  · next hhidden =>
    rw [Bool.or_eq_true, not_or] at hhidden
    refine iff_of_false Bool.false_ne_true fun h => ?_
    rcases h.1.1 with hvisible | howned | hstaff
    · exact Bool.false_ne_true (hhidden.1.symm.trans hvisible)
    · exact hhidden.2.1 howned
    · exact hhidden.2.2 hstaff
  · next hshown =>
    have hallowed : publiclyVisible (s.dossier a).row.status = true ∨
        isOwner s (.user u (s.users u)) (s.dossier a).row = true ∨
          (s.users u).isOfficerOrAdmin = true := by
      rw [Bool.or_eq_true, not_and, not_not] at hshown
      cases hvisible : publiclyVisible (s.dossier a).row.status with
      | true => exact .inl rfl
      | false => exact .inr (hshown hvisible)
    rw [and_iff_right hallowed]
    cases canBid s (.user u (s.users u)) (s.dossier a).row with
    | error e => exact iff_of_false Bool.false_ne_true fun h => Bool.false_ne_true h.1
    | ok may =>
      cases getBidHistory s a (.user u (s.users u)) with
      | error e => exact iff_of_false Bool.false_ne_true fun h => Bool.false_ne_true h.2
      | ok history => exact iff_of_true rfl ⟨rfl, rfl⟩

end Page

/-- Whoever was sent the page of an auction since `s` may open it now. -/
def LinksOpen (s s' : Database) : Prop :=
  ∃ notes, s'.notifications = s.notifications ++ notes ∧
    ∀ n ∈ notes, ∀ a, n.link = auctionLink a →
      (detail s' (.user n.recipient (s'.users n.recipient)) a).isOk = true

section Writes
variable {s s' : Database} {a : AuctionId} {d : Dossier} {rows : List AuditLog} {sent : List Sent}

theorem Writes.referenced (h : Writes a d rows sent s s') (href : Referenced s)
    (hseller : d.row.seller = (s.dossier a).row.seller)
    (hbids : a ∈ s.auctionPks → ∀ b ∈ d.bids, (s.bidderProfiles b.bidder).isSome = true) :
    Referenced s' := by
  constructor
  · intro b hb
    rw [h.people.1] at hb
    rw [h.profiles.1]
    by_cases hab : b = a
    · subst hab
      rw [h.became.here, hseller]
      exact href.sellers b hb
    · rw [h.became.there b hab]
      exact href.sellers b hb
  · intro b hb
    rw [h.people.1] at hb
    rw [h.profiles.2]
    by_cases hab : b = a
    · subst hab
      rw [h.became.here]
      exact hbids hb
    · rw [h.became.there b hab]
      exact href.bidders b hb

/-- The links to the page of `a` open exactly if the page is there for whoever got one. -/
theorem Writes.links (h : Writes a d rows sent s s') (href : Referenced s') (ha : a ∈ s.auctionPks)
    (hlinks : ∀ x ∈ sent, x.link = auctionLink a ∨ ∀ b, x.link ≠ auctionLink b) :
    LinksOpen s s' ↔ ∀ x ∈ sent, x.link = auctionLink a →
      Reads s d.row x.recipient ∧ Countable (d.bids.map Bid.bidder) := by
  obtain ⟨notes, hnotes, rfl⟩ := h.notified
  have hpage : ∀ u, (detail s' (.user u (s'.users u)) a).isOk = true ↔
      Reads s d.row u ∧ Countable (d.bids.map Bid.bidder) := by
    intro u
    rw [detail_isOk (by rw [h.people.1]; exact ha) href, h.became.here]
    unfold Reads Insider Profiled
    rw [h.became.clock, h.people.2.2, h.profiles.2]
  constructor
  · rintro ⟨notes', hnotes', hopen⟩ x hx hlink
    obtain rfl := List.append_cancel_left (hnotes.symm.trans hnotes')
    obtain ⟨n, hn, rfl⟩ := List.mem_map.mp hx
    exact (hpage _).mp (hopen n hn a hlink)
  · intro hopen
    refine ⟨notes, hnotes, fun n hn b hlink => ?_⟩
    have hmem := List.mem_map_of_mem (f := Notification.sent) hn
    rcases hlinks _ hmem with hhere | hnowhere
    · obtain rfl := auctionLink_injective (hlink.symm.trans hhere)
      exact (hpage _).mpr (hopen _ hmem hlink)
    · exact absurd hlink (hnowhere b)

end Writes

/-- The auction that a call is about. -/
def Deed.auctionPk : Deed → Option AuctionId
  | .transition a .. | .startNow a .. | .reschedule a .. | .pause a .. | .resume a ..
  | .cancelAuction a .. | .endNow a .. | .placeBid a .. | .invalidateBid a .. | .closeAuction a ..
  | .openDispute a .. | .takeForReview a .. | .resolveDispute a .. => some a
  | .activateIfDue auction .. | .createPendingPayment auction => some auction.pk
  | .markPaid payment .. | .markFailed payment .. | .markRefunded payment .. => some payment.auction
  | .verifyProfile .. | .rejectProfile .. | .suspendBidder .. | .reactivateBidder .. => none

/-- Whoever has bid on `a`. -/
def Database.bidders (s : Database) (a : AuctionId) : List UserId := (s.dossier a).bids.map Bid.bidder

/-- Whoever the call tells about an auction may open its page afterwards. -/
def Deed.Welcomes (s : Database) : Deed → Prop
  | .transition a toStatus _ _ => toStatus = .approved ∨ toStatus = .live →
    Countable (s.bidders a) ∧ Reads s ((s.dossier a).row.withStatus toStatus) (s.dossier a).row.seller
  | .activateIfDue auction _ =>
    auction.row.status = .scheduled ∧ auction.row.startTime ≤ s.clock →
      Countable (s.bidders auction.pk) ∧ Reads s ((s.dossier auction.pk).row.withStatus .live)
        (s.dossier auction.pk).row.seller
  | .startNow a _ => Countable (s.bidders a) ∧
    Reads s (((s.dossier a).row.withStart (min (s.dossier a).row.startTime s.clock)).withStatus .live)
      (s.dossier a).row.seller
  | .reschedule a _ _ startTime endTime => Countable (s.bidders a) ∧
    Reads s ((s.dossier a).row.withTimes (startTime.getD (s.dossier a).row.startTime)
      (endTime.getD (s.dossier a).row.endTime)) (s.dossier a).row.seller
  | .resume a _ => Countable (s.bidders a) ∧
    Reads s ((s.dossier a).row.withStatus .live) (s.dossier a).row.seller
  | .cancelAuction a _ _ => Countable (s.bidders a) ∧
    ∀ b ∈ accepted (s.dossier a).bids, Insider s (s.dossier a).row b.bidder
  | .pause a _ _ | .endNow a _ _ | .closeAuction a _ _ => Countable (s.bidders a)
  | .placeBid a bidderUser _ =>
    ∀ b ∈ firstBy latestHighestFirst (accepted (s.dossier a).bids), b.bidder ≠ bidderUser →
      Countable (s.bidders a ++ [bidderUser])
  | .markPaid payment _ _ _ _ => Countable (s.bidders payment.auction) ∧
    ∀ u ∈ (payment.auctionRow s).winner.toList ++ [(payment.auctionRow s).seller],
      Reads s (if (payment.auctionRow s).status = .closed then
        (s.dossier payment.auction).row.withStatus .settled
      else (s.dossier payment.auction).row) u
  | .markFailed payment _ _ => ∀ u ∈ (payment.auctionRow s).winner,
    Countable (s.bidders payment.auction) ∧ Reads s (s.dossier payment.auction).row u
  | .invalidateBid .. | .createPendingPayment _ | .markRefunded .. | .openDispute ..
  | .takeForReview .. | .resolveDispute .. | .verifyProfile .. | .rejectProfile ..
  | .suspendBidder .. | .reactivateBidder .. => True

section Calls
variable {w w' : World Database Nat} {s s' : Database} {a : AuctionId} {d : Dossier}
variable {rows : List AuditLog} {sent : List Sent} {deed : Deed} {v : Value} {u : UserId}

/-- The sellers and the bidders stay, and links open as the page says. -/
theorem Writes.posts (h : Writes a d rows sent s s') (href : Referenced s) (ha : a ∈ s.auctionPks)
    (hseller : d.row.seller = (s.dossier a).row.seller)
    (hbids : ∀ b ∈ d.bids, (s.bidderProfiles b.bidder).isSome = true)
    (hlinks : ∀ x ∈ sent, x.link = auctionLink a ∨ ∀ b, x.link ≠ auctionLink b) :
    Referenced s' ∧ (LinksOpen s s' ↔ ∀ x ∈ sent, x.link = auctionLink a →
      Reads s d.row x.recipient ∧ Countable (d.bids.map Bid.bidder)) := by
  have hafter := h.referenced href hseller fun _ => hbids
  exact ⟨hafter, h.links hafter ha hlinks⟩

/-- The same for one message to each of `users`. -/
theorem Writes.postsTo {event : NotificationEvent} {obj : ObjRef} (users : List UserId)
    (h : Writes a d rows (users.map fun u => ⟨u, event, obj, auctionLink a⟩) s s') (href : Referenced s)
    (ha : a ∈ s.auctionPks) (hseller : d.row.seller = (s.dossier a).row.seller)
    (hbids : d.bids = (s.dossier a).bids) :
    Referenced s' ∧ (LinksOpen s s' ↔ ∀ u ∈ users, Reads s d.row u ∧ Countable (s.bidders a)) := by
  have hlinks : ∀ x ∈ users.map fun u => (⟨u, event, obj, auctionLink a⟩ : Sent),
      x.link = auctionLink a := by
    intro x hx
    obtain ⟨u, _, rfl⟩ := List.mem_map.mp hx
    rfl
  obtain ⟨hafter, hopen⟩ := h.posts href ha hseller
    (by rw [hbids]; exact href.bidders a ha) fun x hx => .inl (hlinks x hx)
  refine ⟨hafter, hopen.trans ?_⟩
  rw [hbids]
  constructor
  · intro hall u hu
    exact hall ⟨u, event, obj, auctionLink a⟩ (List.mem_map_of_mem hu) rfl
  · intro hall x hx _
    obtain ⟨u, hu, rfl⟩ := List.mem_map.mp hx
    exact hall u hu

/-- Nobody is sent a page. -/
theorem Writes.postsNone (h : Writes a d rows sent s s') (href : Referenced s) (ha : a ∈ s.auctionPks)
    (hseller : d.row.seller = (s.dossier a).row.seller)
    (hbids : ∀ b ∈ d.bids, (s.bidderProfiles b.bidder).isSome = true)
    (hlinks : ∀ x ∈ sent, ∀ b, x.link ≠ auctionLink b) : Referenced s' ∧ (LinksOpen s s' ↔ True) := by
  obtain ⟨hafter, hopen⟩ := h.posts href ha hseller hbids fun x hx => .inr (hlinks x hx)
  exact ⟨hafter, hopen.trans (iff_of_true (fun x hx hlink => absurd hlink (hlinks x hx a)) trivial)⟩

theorem mem_updateRecipients {auction : Auction} {bids : List Bid} : u ∈ updateRecipients auction bids ↔
    u = auction.seller ∨ ∃ b ∈ accepted bids, b.bidder = u := by
  simp [updateRecipients, mem_keys, mem_inSequence]

/-- A bidder has the profile behind the bid. -/
theorem Referenced.profiled (h : Referenced s) (ha : a ∈ s.auctionPks) {b : Bid}
    (hb : b ∈ (s.dossier a).bids) : Profiled s b.bidder :=
  fun _ => h.bidders a ha b hb

theorem mem_of_accepted {bids : List Bid} {b : Bid} (h : b ∈ accepted bids) : b ∈ bids :=
  List.mem_of_mem_filter h

/-- Where the page is public, only the seller may lack a profile. -/
theorem reads_update {row : Auction} (h : Referenced s) (ha : a ∈ s.auctionPks)
    (hpublic : publiclyVisible row.status = true) :
    (∀ u ∈ updateRecipients (s.dossier a).row (s.dossier a).bids,
        Reads s row u ∧ Countable (s.bidders a)) ↔
      Countable (s.bidders a) ∧ Reads s row (s.dossier a).row.seller := by
  constructor
  · intro hall
    have hfirst := hall _ (mem_updateRecipients.mpr (.inl rfl))
    exact ⟨hfirst.2, hfirst.1⟩
  · rintro ⟨hcount, hread⟩ u hu
    refine ⟨?_, hcount⟩
    rcases mem_updateRecipients.mp hu with rfl | ⟨b, hb, rfl⟩
    · exact hread
    · exact ⟨.inl hpublic, fun _ => h.profiled ha (mem_of_accepted hb)⟩

theorem transition_posts {toStatus : Status} {actor : Option UserId} {reason : String} {row : Auction}
    (href : Referenced s) (ha : a ∈ s.auctionPks)
    (h : (transition a toStatus actor reason).Exec Exact s (.ok row) s') :
    Referenced s' ∧ (LinksOpen s s' ↔ (toStatus = .approved ∨ toStatus = .live →
      Countable (s.bidders a) ∧
        Reads s ((s.dossier a).row.withStatus toStatus) (s.dossier a).row.seller)) := by
  have hlinks : ∀ x ∈ toStatus.sent a (s.dossier a).row.seller,
      x.link = auctionLink a ∨ ∀ b, x.link ≠ auctionLink b := by
    intro x hx
    obtain ⟨event, _, rfl⟩ := List.mem_map.mp hx
    dsimp only
    split
    · exact .inr blankLink_ne
    · exact .inl rfl
  obtain ⟨hafter, hopen⟩ := (transition_writes h).posts href ha rfl (href.bidders a ha) hlinks
  refine ⟨hafter, hopen.trans ?_⟩
  have hblank := blankLink_ne a
  cases toStatus <;>
    simp [Status.sent, Status.announcement, hblank, Dossier.entered, Database.bidders, and_comm]

theorem startNow_posts {actor : UserId} {row : Auction} (href : Referenced s) (ha : a ∈ s.auctionPks)
    (h : (startNow a actor).Exec Exact s (.ok row) s') :
    Referenced s' ∧ (LinksOpen s s' ↔ (Deed.startNow a actor).Welcomes s) := by
  obtain ⟨rows, hwrites⟩ := startNow_writes h
  obtain ⟨hafter, hopen⟩ := Writes.postsTo [(s.dossier a).row.seller] hwrites href ha rfl rfl
  refine ⟨hafter, hopen.trans ?_⟩
  rw [List.forall_mem_singleton, and_comm]
  rfl

theorem resume_posts {actor : UserId} {row : Auction} (href : Referenced s) (ha : a ∈ s.auctionPks)
    (h : (resume a actor).Exec Exact s (.ok row) s') :
    Referenced s' ∧ (LinksOpen s s' ↔ (Deed.resume a actor).Welcomes s) := by
  obtain ⟨rows, hwrites⟩ := resume_writes h
  have hlinks : ∀ x ∈ (⟨(s.dossier a).row.seller, .auctionLive, .auction a, auctionLink a⟩ ::
      updateSent a .auctionResumed (updateRecipients (s.dossier a).row (s.dossier a).bids) : List Sent),
      x.link = auctionLink a := by
    intro x hx
    rcases List.mem_cons.mp hx with rfl | hx
    · rfl
    · obtain ⟨u, _, rfl⟩ := List.mem_map.mp hx
      rfl
  obtain ⟨hafter, hopen⟩ := hwrites.posts href ha rfl (href.bidders a ha) fun x hx => .inl (hlinks x hx)
  refine ⟨hafter, hopen.trans ?_⟩
  rw [Deed.Welcomes, ← reads_update href ha rfl]
  constructor
  · intro hall u hu
    exact hall _ (List.mem_cons_of_mem _ (List.mem_map_of_mem hu)) rfl
  · intro hall x hx _
    rcases List.mem_cons.mp hx with rfl | hx
    · exact hall _ (mem_updateRecipients.mpr (.inl rfl))
    · obtain ⟨u, hu, rfl⟩ := List.mem_map.mp hx
      exact hall u hu

theorem reschedule_posts {actor : UserId} {reason : String} {startTime endTime : Option Time}
    {row : Auction} (href : Referenced s) (ha : a ∈ s.auctionPks)
    (h : (reschedule a actor reason startTime endTime).Exec Exact s (.ok row) s') :
    Referenced s' ∧ (LinksOpen s s' ↔ (Deed.reschedule a actor reason startTime endTime).Welcomes s) := by
  obtain ⟨hstatus, _, hwrites⟩ := reschedule_writes h
  obtain ⟨hafter, hopen⟩ := hwrites.postsTo _ href ha rfl rfl
  have hpublic : publiclyVisible (s.dossier a).row.status = true := by
    cases hs : (s.dossier a).row.status <;> rw [hs] at hstatus <;> first | rfl | cases hstatus
  exact ⟨hafter, hopen.trans (reads_update href ha hpublic)⟩

theorem pause_posts {actor : UserId} {reason : String} {row : Auction} (href : Referenced s)
    (ha : a ∈ s.auctionPks) (h : (pause a actor reason).Exec Exact s (.ok row) s') :
    Referenced s' ∧ (LinksOpen s s' ↔ Countable (s.bidders a)) := by
  obtain ⟨_, _, hwrites⟩ := pause_writes h
  obtain ⟨hafter, hopen⟩ := hwrites.postsTo _ href ha rfl rfl
  refine ⟨hafter, hopen.trans ((reads_update href ha rfl).trans (and_iff_left ?_))⟩
  exact ⟨.inl rfl, fun hbiddable => by cases hbiddable⟩

/-- A cancelled auction is shown to insiders only. -/
theorem cancelAuction_posts {actor : UserId} {reason : String} {row : Auction} (href : Referenced s)
    (ha : a ∈ s.auctionPks) (h : (cancelAuction a actor reason).Exec Exact s (.ok row) s') :
    Referenced s' ∧ (LinksOpen s s' ↔ (Deed.cancelAuction a actor reason).Welcomes s) := by
  obtain ⟨_, _, hwrites⟩ := cancelAuction_writes h
  obtain ⟨hafter, hopen⟩ := hwrites.postsTo _ href ha rfl rfl
  refine ⟨hafter, hopen.trans ⟨fun hall => ?_, fun hall u hu => ?_⟩⟩
  · refine ⟨(hall _ (mem_updateRecipients.mpr (.inl rfl))).2, fun b hb => ?_⟩
    have hread := (hall _ (mem_updateRecipients.mpr (.inr ⟨b, hb, rfl⟩))).1.1
    exact hread.resolve_left Bool.false_ne_true
  · refine ⟨⟨.inr ?_, fun hbiddable => by cases hbiddable⟩, hall.1⟩
    rcases mem_updateRecipients.mp hu with rfl | ⟨b, hb, rfl⟩
    · exact .inl rfl
    · exact hall.2 b hb

theorem closeAuction_posts {actor : Option UserId} {reason : String} {row : Auction}
    (href : Referenced s) (ha : a ∈ s.auctionPks)
    (h : (closeAuction a actor reason).Exec Exact s (.ok row) s') :
    Referenced s' ∧ (LinksOpen s s' ↔ Countable (s.bidders a)) := by
  obtain ⟨owed, _, hwrites⟩ := closeAuction_writes h
  have hread : ∀ u, Reads s ((((s.dossier a).onRow (.withSale (saleOf (s.dossier a).row
      (highestAccepted (s.dossier a).bids)))).entered .closed actor reason).addPayments owed).row u :=
    fun u => ⟨.inl rfl, fun hbiddable => by cases hbiddable⟩
  unfold closingSent at hwrites
  split at hwrites
  · next winner _ =>
    obtain ⟨hafter, hopen⟩ := Writes.postsTo [winner] hwrites href ha rfl rfl
    refine ⟨hafter, hopen.trans ?_⟩
    rw [List.forall_mem_singleton, and_iff_right (hread winner)]
  · obtain ⟨hafter, hopen⟩ := Writes.postsTo [(s.dossier a).row.seller] hwrites href ha rfl rfl
    refine ⟨hafter, hopen.trans ?_⟩
    rw [List.forall_mem_singleton, and_iff_right (hread _)]

theorem markPaid_posts {payment : LoadedPayment} {actor : UserId} {method reference notes : String}
    {p : Payment} (href : Referenced s) (ha : payment.auction ∈ s.auctionPks)
    (h : (markPaid payment actor method reference notes).Exec Exact s (.ok p) s') :
    Referenced s' ∧
      (LinksOpen s s' ↔ (Deed.markPaid payment actor method reference notes).Welcomes s) := by
  have hwrites := markPaid_writes h
  obtain ⟨hafter, hopen⟩ := hwrites.postsTo _ href ha (by dsimp only; split <;> rfl)
    (by dsimp only; split <;> rfl)
  refine ⟨hafter, hopen.trans ?_⟩
  rw [apply_ite Dossier.row]
  constructor
  · intro hall
    exact ⟨(hall (payment.auctionRow s).seller (by simp)).2, fun u hu => (hall u hu).1⟩
  · intro hall u hu
    exact ⟨hall.2 u hu, hall.1⟩

theorem markFailed_posts {first : Database} (payment : LoadedPayment) (actor : UserId) (reason : String)
    (href : Referenced first) (ha : payment.auction ∈ first.auctionPks) :
    Returns (fun s' => Referenced s' ∧
      (LinksOpen first s' ↔ (Deed.markFailed payment actor reason).Welcomes first))
      (markFailedTask payment actor reason) first := by
  refine (markFailed_writes first payment actor reason).mono fun _ _ s' hwrites v hv => ?_
  obtain ⟨hafter, hopen⟩ := (hwrites v hv).postsTo _ href ha rfl rfl
  refine ⟨hafter, hopen.trans ?_⟩
  simp only [Deed.Welcomes, Option.mem_toList, and_comm]
  rfl

theorem placeBid_posts {bidderUser : UserId} {amount : Number} {bid : Bid} (href : Referenced s)
    (ha : a ∈ s.auctionPks) (h : (placeBid a bidderUser amount).Exec Exact s (.ok bid) s') :
    Referenced s' ∧ (LinksOpen s s' ↔ (Deed.placeBid a bidderUser amount).Welcomes s) := by
  obtain ⟨value, _, rfl, _, _, _, hfresh, hwrites⟩ := placeBid_writes h
  obtain ⟨hbiddable, hprofile⟩ := placeBid_admits h
  rw [outbidSent_addBid hfresh] at hwrites
  have hbids : ∀ b ∈ (s.dossier a).bids ++ [bid], (s.bidderProfiles b.bidder).isSome = true := by
    intro b hb
    rcases List.mem_append.mp hb with hold | hnew
    · exact href.bidders a ha b hold
    · rw [List.mem_singleton.mp hnew]
      exact hprofile
  have hcount : ((s.dossier a).bids ++ [bid]).map Bid.bidder = s.bidders a ++ [bid.bidder] := by
    rw [List.map_append]
    rfl
  have hlive : (s.dossier a).row.status = .live := by
    simp only [Auction.isBiddable, Bool.and_eq_true, beq_iff_eq] at hbiddable
    exact hbiddable.1
  cases hfirst : firstBy latestHighestFirst (accepted (s.dossier a).bids) with
  | none =>
    simp only [hfirst] at hwrites
    obtain ⟨hafter, hopen⟩ := hwrites.postsNone href ha rfl hbids fun x hx => by cases hx
    exact ⟨hafter, hopen.trans (iff_of_true trivial fun b hb => by rw [hfirst] at hb; cases hb)⟩
  | some previous =>
    simp only [hfirst] at hwrites
    by_cases hown : previous.bidder = bid.bidder
    · rw [if_pos hown] at hwrites
      obtain ⟨hafter, hopen⟩ := hwrites.postsNone href ha rfl hbids fun x hx => by cases hx
      refine ⟨hafter, hopen.trans (iff_of_true trivial fun b hb hne => ?_)⟩
      rw [hfirst, Option.mem_some] at hb
      exact absurd hown (hb ▸ hne)
    · rw [if_neg hown] at hwrites
      have hmem := mem_of_accepted (firstBy_mem hfirst)
      have hlinks : ∀ x ∈ ([⟨previous.bidder, .outbid, .auction a, auctionLink a⟩] : List Sent),
          x.link = auctionLink a ∨ ∀ b, x.link ≠ auctionLink b := by
        intro x hx
        rw [List.mem_singleton.mp hx]
        exact .inl rfl
      obtain ⟨hafter, hopen⟩ := hwrites.posts href ha rfl hbids hlinks
      refine ⟨hafter, hopen.trans ?_⟩
      simp only [List.forall_mem_singleton, Dossier.onRow_bids, Dossier.addBid_bids, hcount,
        Deed.Welcomes, hfirst, Option.mem_some, forall_const]
      have hread : Reads s (((s.dossier a).addBid bid).onRow (.withBid value.money
          (extendedEnd (s.dossier a).row s.clock))).row previous.bidder := by
        refine ⟨.inl ?_, fun _ => href.profiled ha hmem⟩
        rw [Dossier.onRow_row, Dossier.addBid_row, Auction.withBid_status, hlive]
        rfl
      rw [and_iff_right hread]
      exact ⟨fun hroom b he _ => hroom, fun hroom => hroom previous rfl hown⟩

/-- What is written about a dispute keeps the sellers and the bidders. -/
theorem openDispute_posts {raisedBy : UserId} {category description : String} {x : Dispute}
    (href : Referenced s) (ha : a ∈ s.auctionPks)
    (h : (openDispute a raisedBy category description).Exec Exact s (.ok x) s') :
    Referenced s' ∧ (LinksOpen s s' ↔ True) := by
  obtain ⟨_, _, _, _, _, hwrites⟩ := openDispute_writes h
  refine hwrites.postsNone href ha rfl (href.bidders a ha) fun y hy => ?_
  obtain ⟨u, _, rfl⟩ := List.mem_map.mp hy
  exact fun b => disputeLink_ne b x.pk

theorem resolveDispute_posts {pk : Nat} {actor : UserId} {outcome notes : String} {refund : Bool}
    {x : Dispute} (href : Referenced s) (ha : a ∈ s.auctionPks)
    (h : (resolveDispute a pk actor outcome notes refund).Exec Exact s (.ok x) s') :
    Referenced s' ∧ (LinksOpen s s' ↔ True) := by
  obtain ⟨y, result, reason, restored, _, _, hwrites⟩ := resolveDispute_writes h
  refine hwrites.postsNone href ha ?_ ?_ fun x hx => ?_
  · rw [Dossier.onDispute_row, returned_row, (refundedBy_frame ..).1]
    rfl
  · rw [Dossier.onDispute_bids, returned_bids, (refundedBy_frame ..).2]
    exact href.bidders a ha
  · obtain ⟨u, _, rfl⟩ := List.mem_map.mp hx
    exact fun b => disputeLink_ne b pk

theorem activateIfDue_posts (auction : LoadedAuction) (actor : Option UserId) (href : Referenced s)
    (ha : auction.pk ∈ s.auctionPks) : Returns (fun s' => Referenced s' ∧
      (LinksOpen s s' ↔ (Deed.activateIfDue auction actor).Welcomes s))
      (activateIfDue auction actor .done .fail) s := by
  refine ⟨?_, False.elim⟩
  dsimp only
  split
  · next hdue =>
    refine ⟨fun r s' hx => ?_, fun e s' _ v hv => (by cases hv), False.elim⟩
    obtain ⟨_, hx⟩ := exec_map_ok hx
    obtain ⟨hafter, hopen⟩ := transition_posts href ha hx
    refine fun _ _ => ⟨hafter, hopen.trans ?_⟩
    simp [Deed.Welcomes, hdue]
  · next hidle =>
    refine fun _ _ => ⟨href, iff_of_true ⟨[], (List.append_nil _).symm, fun n hn => ?_⟩ ?_⟩
    · cases hn
    · exact fun hdue => absurd hdue hidle

theorem invalidateBid_posts (pk : Nat) (actor : UserId) (reason : String) (href : Referenced s)
    (ha : a ∈ s.auctionPks) : Returns (fun s' => Referenced s' ∧ (LinksOpen s s' ↔ True))
      (invalidateBidTask a pk actor reason) s := by
  refine ⟨?_, False.elim⟩
  dsimp only
  split
  · exact fun v hv => by cases hv
  split
  · exact fun v hv => by cases hv
  refine ⟨fun r s' hx => ?_, fun e s' _ v hv => (by cases hv), False.elim⟩
  obtain ⟨_, hx⟩ := exec_map_ok hx
  refine fun _ _ => (invalidateBid_writes hx).postsNone href ha rfl ?_ fun x hx => by cases hx
  intro b hb
  obtain ⟨x, hx, rfl⟩ := mem_updateKey.mp hb
  split
  · exact href.bidders a ha x hx
  · exact href.bidders a ha x hx

theorem perform_posts (href : Referenced w.db) (hpk : deed.auctionPk = some a)
    (ha : a ∈ w.db.auctionPks) (h : deed.perform w = (.ok v, w')) :
    Referenced w'.db ∧ (LinksOpen w.db w'.db ↔ deed.Welcomes w.db) := by
  cases deed <;> simp only [Deed.perform] at h <;> simp only [Deed.auctionPk, Option.some.injEq,
    reduceCtorEq] at hpk <;> subst hpk
  case transition =>
    obtain ⟨_, hx⟩ := atomic_map_ok h
    exact transition_posts href ha hx
  case activateIfDue auction actor => exact (activateIfDue_posts auction actor href ha).run h
  case startNow =>
    obtain ⟨_, hx⟩ := atomic_map_ok h
    exact startNow_posts href ha hx
  case reschedule =>
    obtain ⟨_, hx⟩ := atomic_map_ok h
    exact reschedule_posts href ha hx
  case pause =>
    obtain ⟨_, hx⟩ := atomic_map_ok h
    exact pause_posts href ha hx
  case resume =>
    obtain ⟨_, hx⟩ := atomic_map_ok h
    exact resume_posts href ha hx
  case cancelAuction =>
    obtain ⟨_, hx⟩ := atomic_map_ok h
    exact cancelAuction_posts href ha hx
  case endNow =>
    obtain ⟨_, hx⟩ := atomic_map_ok h
    obtain ⟨_, hclose⟩ := endNow_closes hx
    exact closeAuction_posts href ha hclose
  case placeBid =>
    obtain ⟨_, hx⟩ := atomic_map_ok h
    exact placeBid_posts href ha hx
  case invalidateBid a pk actor reason => exact (invalidateBid_posts pk actor reason href ha).run h
  case closeAuction =>
    obtain ⟨_, hx⟩ := atomic_map_ok h
    exact closeAuction_posts href ha hx
  case createPendingPayment auction =>
    obtain ⟨_, hx⟩ := run_map_ok h
    obtain ⟨_, hwrites⟩ := createPendingPayment_writes hx
    exact hwrites.postsNone href ha rfl (href.bidders _ ha) fun x hx => by cases hx
  case markPaid =>
    obtain ⟨_, hx⟩ := atomic_map_ok h
    exact markPaid_posts href ha hx
  case markFailed payment actor reason => exact (markFailed_posts payment actor reason href ha).run h
  case markRefunded payment actor reason =>
    obtain ⟨_, hx⟩ := run_map_ok h
    exact (markRefunded_writes hx).postsNone href ha rfl (href.bidders _ ha) fun x hx => by cases hx
  case openDispute =>
    obtain ⟨_, hx⟩ := atomic_map_ok h
    exact openDispute_posts href ha hx
  case takeForReview =>
    obtain ⟨_, hx⟩ := atomic_map_ok h
    exact (takeForReview_writes hx).2.postsNone href ha rfl (href.bidders _ ha) fun x hx => by cases hx
  case resolveDispute =>
    obtain ⟨_, hx⟩ := atomic_map_ok h
    exact resolveDispute_posts href ha hx

end Calls

/-- What others do between two calls: no row loses a row that it refers to. -/
def Upkeep := { f : World Database Nat → World Database Nat //
  ∀ w, Referenced w.db → Referenced (f w).db }

/-- A call about an auction, or anything else. -/
inductive Affair where
  | perform (deed : Deed)
  | upkeep (change : Upkeep)

/-- A call that succeeds on an auction that there is, or anything else. -/
def Affair.step (w : World Database Nat) : Affair → Option (World Database Nat)
  | perform deed =>
    match deed.auctionPk.filter (fun a => a ∈ w.db.auctionPks), deed.perform w with
    | some _, (.ok _, w') => some w'
    | _, _ => none
  | upkeep change => some (change.val w)

section Runs
variable {first last w w' : World Database Nat} {before : List (World Database Nat × Affair)}
variable {deed : Deed}

theorem affair_step (h : Affair.step w (.perform deed) = some w') :
    ∃ a v, deed.auctionPk = some a ∧ a ∈ w.db.auctionPks ∧ deed.perform w = (.ok v, w') := by
  simp only [Affair.step] at h
  split at h
  · next a v w'' hpk hperform =>
    cases h
    obtain ⟨hsome, hmem⟩ := Option.filter_eq_some_iff.mp hpk
    exact ⟨a, v, hsome, of_decide_eq_true hmem, hperform⟩
  · cases h

theorem affair_posts (href : Referenced w.db) (h : Affair.step w (.perform deed) = some w') :
    Referenced w'.db ∧ (LinksOpen w.db w'.db ↔ deed.Welcomes w.db) := by
  obtain ⟨a, v, hpk, ha, hperform⟩ := affair_step h
  exact perform_posts href hpk ha hperform

theorem referenced_run (hfirst : Referenced first.db) (hrun : Run Affair.step first before last) :
    Referenced last.db := by
  refine hrun.invariant (I := fun w => Referenced w.db) hfirst fun w ev w' href hs => ?_
  cases ev with
  | perform deed => exact (affair_posts href hs).1
  | upkeep change =>
    cases hs
    exact change.property w href

end Runs

section Samples

/-- The sample listing goes live, and alice bids. -/
def liveWithBid : List Affair :=
  [.perform (.transition 0 .submitted (some 1) ""), .perform (.transition 0 .approved (some 0) ""),
    .perform (.transition 0 .scheduled (some 0) "Auto-scheduled after approval"),
    .perform (.activateIfDue ⟨0, sampleAuction.withStatus .scheduled⟩ none),
    .perform (.placeBid 0 2 (.int 700000))]

theorem sample_referenced : Referenced sampleDatabase := by
  constructor
  · intro a ha
    rw [List.mem_singleton.mp ha]
    rfl
  · intro a ha b hb
    rw [List.mem_singleton.mp ha] at hb
    cases hb

end Samples

end MbararaAuction
