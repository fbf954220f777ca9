import MbararaAuction.Proofs.Refinement
import MbararaAuction.Transactions.Failures

namespace MbararaAuction
open Transactions Queries

seal Tx.Exec

/-- If the task returns, `P` holds of what it leaves. -/
abbrev Returns (P : Database → Prop) (t : ServiceTask) (s : Database) : Prop :=
  t.Ensures engine False (fun _ out s' => ∀ v, out = .ok v → P s') 0 s

theorem Returns.run {P : Database → Prop} {t : ServiceTask} {w w' : World Database Nat} {v : Value}
    (h : Returns P t w.db) (hrun : t.run engine w = (.ok v, w')) : P w'.db := by
  obtain ⟨_, hends⟩ := Task.Ensures.run h
  rw [hrun] at hends
  exact hends v rfl

section Scheduling
variable {s s' : Database} {a : AuctionId} {actor : UserId} {reason : String} {row : Auction}

theorem flatMap_sent {α : Type} (xs : List α) (f : α → Sent) :
    (xs.flatMap fun x => [f x]) = xs.map f := by
  induction xs with
  | nil => rfl
  | cons x xs ih => rw [List.flatMap_cons, ih, List.map_cons, List.singleton_append]

/-- Whom `notify_auction_update` notifies: the seller, and whoever has a standing bid. -/
def updateRecipients (auction : Auction) (bids : List Bid) : List UserId :=
  ((inSequence (accepted bids)).map Bid.bidder).foldl withKey [auction.seller]

/-- What is sent to each of them. -/
def updateSent (a : AuctionId) (event : NotificationEvent) (recipients : List UserId) : List Sent :=
  recipients.map fun u => ⟨u, event, .auction a, auctionLink a⟩

theorem notifyAuctionUpdate_writes {sees : Database → Database → Prop} {auction : Auction}
    {event : NotificationEvent} {title message : String} {u : Unit}
    (h : (notifyAuctionUpdate a auction event title message).Exec sees s (.ok u) s') :
    Writes a (s.dossier a) [] (updateSent a event (updateRecipients auction (s.dossier a).bids))
      s s' := by
  unfold notifyAuctionUpdate at h
  rw [exec_query_bind] at h
  have hall := notifyAll_writes (a := a) h
  simp only [Notice.sent, Notice.auction, Option.toList_some, List.map_cons, List.map_nil,
    flatMap_sent] at hall
  exact hall

theorem startNow_writes (h : (startNow a actor).Exec Exact s (.ok row) s') :
    ∃ rows, Writes a (((s.dossier a).onRow
        (.withStart (min (s.dossier a).row.startTime s.clock))).entered .live (some actor)
          "Started manually by staff") rows
      [⟨(s.dossier a).row.seller, .auctionLive, .auction a, auctionLink a⟩] s s' := by
  simp only [startNow, exec_lockedAuction_bind, exec_refuse_bind, exec_now_bind, exists_exact,
    reduceCtorEq, false_and, and_false, false_or] at h
  obtain ⟨_, _, h⟩ := h
  obtain ⟨_, t, hstart, htrans⟩ := (exec_bind_ok ..).mp h
  obtain ⟨rows, hstarted⟩ : ∃ rows, Writes a ((s.dossier a).onRow
      (.withStart (min (s.dossier a).row.startTime s.clock))) rows [] s t := by
    rcases (exec_when ..).mp hstart with ⟨hearly, hsave⟩ | ⟨hsoon, _, hsame⟩
    · rw [exec_saveAuction_bind] at hsave
      rw [min_eq_right hearly.le]
      exact ⟨_, (writes_amend a (.onRow (.withStart s.clock)) s).stay (record_writes hsave)⟩
    · rw [min_eq_left (not_lt.mp hsoon), hsame]
      exact ⟨_, writes_refl a s⟩
  have hmoved := hstarted.next
    (f := fun d => d.entered .live (some actor) "Started manually by staff") (transition_writes htrans)
  rw [hstarted.became.here] at hmoved
  exact ⟨_, hmoved⟩

theorem reschedule_writes {startTime endTime : Option Time}
    (h : (reschedule a actor reason startTime endTime).Exec Exact s (.ok row) s') :
    schedulable (s.dossier a).row.status = true ∧
    ∃ rows, Writes a ((s.dossier a).onRow (.withTimes
        (startTime.getD (s.dossier a).row.startTime) (endTime.getD (s.dossier a).row.endTime))) rows
      (updateSent a .auctionRescheduled
        (updateRecipients (s.dossier a).row (s.dossier a).bids)) s s' := by
  simp only [reschedule, exec_ofExcept_bind, exec_lockedAuction_bind, exec_refuse_bind,
    exec_now_bind, exec_saveAuction_bind, exists_exact, reduceCtorEq, false_and, and_false, false_or,
    exists_false] at h
  obtain ⟨text, _, hopen, _, _, _, _, _, _, h⟩ := h
  obtain ⟨_, t, hrecord, h⟩ := (exec_bind_ok ..).mp h
  obtain ⟨_, u, hnotify, hend⟩ := (exec_bind_ok ..).mp h
  obtain ⟨_, rfl⟩ := (exec_pure ..).mp hend
  have hsaved := (writes_amend a (.onRow (.withTimes (startTime.getD (s.dossier a).row.startTime)
    (endTime.getD (s.dossier a).row.endTime))) s).stay (record_writes hrecord)
  have htold := notifyAuctionUpdate_writes hnotify
  rw [hsaved.became.here] at htold
  exact ⟨Bool.eq_true_of_not_eq_false hopen, _, hsaved.trans htold⟩

/-- A transition that bidders and the seller are then told of. -/
theorem announced_writes {toStatus : Status} {mover : Option UserId} {moved : Auction}
    {event : NotificationEvent} {title message : String} {x : Unit} {rows : List AuditLog}
    {sent : List Sent} {t u : Database}
    (htrans : (transition a toStatus mover reason).Exec Exact s (.ok moved) t)
    (hsaved : Writes a ((s.dossier a).entered toStatus mover reason) rows sent s u)
    (hnotify : (notifyAuctionUpdate a moved event title message).Exec Exact u (.ok x) s') :
    Writes a ((s.dossier a).entered toStatus mover reason) (rows ++ [])
      (sent ++ updateSent a event (updateRecipients (s.dossier a).row (s.dossier a).bids)) s s' := by
  have htold := notifyAuctionUpdate_writes hnotify
  rw [hsaved.became.here] at htold
  rw [(transition_ok htrans).2.2.1] at htold
  exact hsaved.trans htold

theorem pause_writes (h : (pause a actor reason).Exec Exact s (.ok row) s') :
    ∃ reason rows, Writes a ((s.dossier a).entered .paused (some actor) reason) rows
      (updateSent a .auctionPaused
        (updateRecipients (s.dossier a).row (s.dossier a).bids)) s s' := by
  simp only [pause, exec_ofExcept_bind, exec_lockedAuction_bind, reduceCtorEq, false_and, and_false,
    exists_false, false_or] at h
  obtain ⟨text, _, h⟩ := h
  obtain ⟨_, t, htrans, h⟩ := (exec_bind_ok ..).mp h
  obtain ⟨_, u, hrecord, h⟩ := (exec_bind_ok ..).mp h
  obtain ⟨_, v, hnotify, hend⟩ := (exec_bind_ok ..).mp h
  obtain ⟨_, rfl⟩ := (exec_pure ..).mp hend
  have hsaved := (transition_writes htrans).stay (record_writes hrecord)
  exact ⟨_, _, announced_writes htrans hsaved hnotify⟩

theorem resume_writes (h : (resume a actor).Exec Exact s (.ok row) s') :
    ∃ rows, Writes a ((s.dossier a).entered .live (some actor) "Resumed by staff") rows
      (⟨(s.dossier a).row.seller, .auctionLive, .auction a, auctionLink a⟩ ::
        updateSent a .auctionResumed (updateRecipients (s.dossier a).row (s.dossier a).bids))
      s s' := by
  simp only [resume, exec_lockedAuction_bind, exec_refuse_bind, exec_now_bind, exists_exact,
    reduceCtorEq, false_and, and_false, false_or] at h
  obtain ⟨_, _, h⟩ := h
  obtain ⟨_, t, htrans, h⟩ := (exec_bind_ok ..).mp h
  obtain ⟨_, u, hrecord, h⟩ := (exec_bind_ok ..).mp h
  obtain ⟨_, v, hnotify, hend⟩ := (exec_bind_ok ..).mp h
  obtain ⟨_, rfl⟩ := (exec_pure ..).mp hend
  have hsaved := (transition_writes htrans).stay (record_writes hrecord)
  exact ⟨_, announced_writes htrans hsaved hnotify⟩

theorem cancelAuction_writes (h : (cancelAuction a actor reason).Exec Exact s (.ok row) s') :
    ∃ reason rows, Writes a ((s.dossier a).entered .cancelled (some actor) reason) rows
      (updateSent a .auctionCancelled
        (updateRecipients (s.dossier a).row (s.dossier a).bids)) s s' := by
  simp only [cancelAuction, exec_ofExcept_bind, exec_lockedAuction_bind, exec_refuse_bind,
    reduceCtorEq, false_and, and_false, exists_false, false_or] at h
  obtain ⟨text, _, _, h⟩ := h
  obtain ⟨_, t, htrans, h⟩ := (exec_bind_ok ..).mp h
  obtain ⟨_, u, hnotify, hend⟩ := (exec_bind_ok ..).mp h
  obtain ⟨_, rfl⟩ := (exec_pure ..).mp hend
  exact ⟨_, _, announced_writes htrans (transition_writes htrans) hnotify⟩

end Scheduling

section Bidding
variable {sees : Database → Database → Prop} {s s' : Database} {a : AuctionId}

/-- What `notify_outbid` sends about `bid`, one of `bids`. -/
def outbidSent (a : AuctionId) (bids : List Bid) (bid : Bid) : List Sent :=
  match firstBy latestHighestFirst ((accepted bids).filter (fun b => b.pk ≠ bid.pk)) with
  | none => []
  | some previousHighest =>
    if previousHighest.bidder = bid.bidder then [] else
    [⟨previousHighest.bidder, .outbid, .auction a, auctionLink a⟩]

theorem notifyOutbid_writes {auction : Auction} {bid : Bid} {amount : String}
    {out : Except PyError Unit} (h : (notifyOutbid a auction bid amount).Exec sees s out s') :
    Writes a (s.dossier a) [] (outbidSent a (s.dossier a).bids bid) s s' := by
  unfold notifyOutbid at h
  rw [exec_query_bind] at h
  unfold outbidSent
  cases hfirst : firstBy latestHighestFirst
      ((accepted (s.dossier a).bids).filter (fun b => b.pk ≠ bid.pk)) with
  | none =>
    simp only [hfirst, exec_pure] at h
    obtain ⟨_, rfl⟩ := h
    exact writes_refl a s'
  | some previousHighest =>
    simp only [hfirst] at h
    by_cases hown : previousHighest.bidder = bid.bidder
    · simp only [if_pos hown, exec_pure] at h ⊢
      obtain ⟨_, rfl⟩ := h
      exact writes_refl a s'
    · simp only [if_neg hown] at h ⊢
      exact notify_writes h

/-- The new bid itself does not count. -/
theorem outbidSent_addBid {bids : List Bid} {bid : Bid} (hfresh : bid.pk ∉ bids.map Bid.pk) :
    outbidSent a (bids ++ [bid]) bid =
      match firstBy latestHighestFirst (accepted bids) with
      | none => []
      | some previousHighest =>
        if previousHighest.bidder = bid.bidder then [] else
        [⟨previousHighest.bidder, .outbid, .auction a, auctionLink a⟩] := by
  have hothers : (accepted (bids ++ [bid])).filter (fun b => b.pk ≠ bid.pk) = accepted bids := by
    unfold accepted
    rw [List.filter_append, List.filter_append, List.filter_filter, List.filter_filter]
    have hold : bids.filter (fun b => decide (b.pk ≠ bid.pk) && decide (b.status = .accepted)) =
        bids.filter (fun b => b.status = .accepted) := by
      refine List.filter_congr fun b hb => ?_
      have hne : b.pk ≠ bid.pk := fun he => hfresh (he ▸ List.mem_map_of_mem hb)
      rw [decide_eq_true hne, Bool.true_and]
    rw [hold]
    simp
  unfold outbidSent
  rw [hothers]

/-- The audit row of a bid inside the anti-sniping window. -/
def extensionAudit (a : AuctionId) (bidder : UserId) (auction : Auction) (t : Time) : List AuditLog :=
  if auction.extensionMinutes ≠ 0 ∧ auction.endTime - t ≤ minutes auction.extensionMinutes then
    [⟨some bidder, .auctionExtended, .auction a, "Bid received inside anti-sniping window"⟩]
  else []

/-- Bids are taken from bidders with a profile while the auction is open. -/
theorem placeBid_admits {bidderUser : UserId} {amount : Number} {bid : Bid}
    (h : (placeBid a bidderUser amount).Exec Exact s (.ok bid) s') :
    (s.dossier a).row.isBiddable s.clock = true ∧ (s.bidderProfiles bidderUser).isSome = true := by
  simp only [placeBid, exec_ofExcept_bind, exec_lockedAuction_bind, exec_now_bind,
    exec_glance_bind, exec_query_bind, exec_refuse_bind, exists_exact, reduceCtorEq, false_and,
    and_false, exists_false, false_or] at h
  obtain ⟨value, _, hopen, hprofile, _⟩ := h
  rw [not_or, not_not, not_not] at hopen
  obtain ⟨hlive, hstart, hend⟩ := hopen
  refine ⟨?_, Option.isSome_iff_ne_none.mpr hprofile⟩
  simp [Auction.isBiddable, hlive, hstart, hend]

/-- All that an accepted bid leaves behind, where `u` is what the clock was read from. -/
theorem placeBid_seen {bidderUser : UserId} {amount : Number} {bid : Bid}
    (h : (placeBid a bidderUser amount).Exec sees s (.ok bid) s') :
    ∃ value u, sees s u ∧ validateAmount amount = .ok value ∧ bid.bidder = bidderUser ∧
      bid.amount = value.money ∧ bid.status = .accepted ∧
      bid.sequenceNo = nextSequence (s.dossier a).bids ∧
      bid.pk ∉ (s.dossier a).bids.map Bid.pk ∧
      Writes a (((s.dossier a).addBid bid).onRow
          (.withBid value.money (extendedEnd (s.dossier a).row u.clock)))
        (extensionAudit a bidderUser (s.dossier a).row u.clock ++
          [⟨some bidderUser, .bidPlaced, .bid a bid.pk, ""⟩])
        (outbidSent a ((s.dossier a).bids ++ [bid]) bid) s s' := by
  simp only [placeBid, exec_ofExcept_bind, exec_lockedAuction_bind, exec_now_bind,
    exec_glance_bind, exec_query_bind, exec_refuse_bind, reduceCtorEq, false_and,
    and_false, exists_false, false_or] at h
  obtain ⟨value, hvalue, now, hnow, _, _, _, _, _, _, _, _, _, h⟩ := h
  obtain ⟨b, t, hcreate, h⟩ := (exec_bind_ok ..).mp h
  obtain ⟨hbidder, hamount, hnext, hstanding, _, hfresh, rfl⟩ := createBid_ok hcreate
  obtain ⟨_, v, hextension, h⟩ := (exec_bind_ok ..).mp h
  rw [exec_saveAuction_bind] at h
  obtain ⟨_, w, hrecord, h⟩ := (exec_bind_ok ..).mp h
  obtain ⟨_, x, houtbid, hend⟩ := (exec_bind_ok ..).mp h
  obtain ⟨hb, rfl⟩ := (exec_pure ..).mp hend
  cases hb
  have hextended : Writes a ((s.dossier a).addBid bid)
      (extensionAudit a bidderUser (s.dossier a).row now.clock) [] s v := by
    have hadded := writes_amend a (.addBid bid) s
    unfold extensionAudit
    rcases (exec_when ..).mp hextension with ⟨hinside, hrecorded⟩ | ⟨houtside, _, rfl⟩
    · rw [if_pos hinside]
      exact hadded.stay (record_writes hrecorded)
    · rw [if_neg houtside]
      exact hadded
  have hsaved := hextended.next (writes_amend a (.onRow
    (.withBid value.money (extendedEnd (s.dossier a).row now.clock))) v)
  have hplaced := hsaved.stay (record_writes hrecord)
  have htold := notifyOutbid_writes houtbid
  rw [hplaced.became.here] at htold
  have hall := hplaced.trans htold
  simp only [List.append_nil, List.nil_append] at hall
  exact ⟨value, now, hnow, hvalue, hbidder, hamount, hstanding, hnext, hfresh, hall⟩

theorem placeBid_writes {bidderUser : UserId} {amount : Number} {bid : Bid}
    (h : (placeBid a bidderUser amount).Exec Exact s (.ok bid) s') :
    ∃ value, validateAmount amount = .ok value ∧ bid.bidder = bidderUser ∧
      bid.amount = value.money ∧ bid.status = .accepted ∧
      bid.sequenceNo = nextSequence (s.dossier a).bids ∧
      bid.pk ∉ (s.dossier a).bids.map Bid.pk ∧
      Writes a (((s.dossier a).addBid bid).onRow
          (.withBid value.money (extendedEnd (s.dossier a).row s.clock)))
        (extensionAudit a bidderUser (s.dossier a).row s.clock ++
          [⟨some bidderUser, .bidPlaced, .bid a bid.pk, ""⟩])
        (outbidSent a ((s.dossier a).bids ++ [bid]) bid) s s' := by
  obtain ⟨value, hseen⟩ := placeBid_seen h
  rw [exists_exact] at hseen
  exact ⟨value, hseen⟩

/-- The bids after an invalidation, and the row that goes with them. -/
def Dossier.invalidated (pk : Nat) (actor : UserId) (reason : String) (t : Time) (d : Dossier) :
    Dossier :=
  let after := d.onBid pk (.invalidatedWith actor reason t)
  after.onRow (.withHighest ((highestAccepted after.bids).map Bid.amount))

theorem invalidateBid_writes {pk : Nat} {actor : UserId} {reason : String} {r : Unit}
    (h : (invalidateBid a pk actor reason).Exec Exact s (.ok r) s') :
    Writes a ((s.dossier a).invalidated pk actor reason s.clock)
      [⟨some actor, .bidInvalidated, .bid a pk, reason⟩] [] s s' := by
  simp only [invalidateBid, exec_lockedAuction_bind, exec_now_bind, exec_saveBid_bind,
    exec_query_bind, exec_saveAuction_bind, exists_exact] at h
  rw [amend_self] at h
  let after := (s.dossier a).onBid pk (.invalidatedWith actor reason s.clock)
  have hsaved := (writes_amend a (.onBid pk (.invalidatedWith actor reason s.clock)) s).next
    (writes_amend a (.onRow (.withHighest ((highestAccepted after.bids).map Bid.amount))) _)
  exact hsaved.stay (record_writes h)

/-- The audit row of a payment that is due. -/
def dueAudit (a : AuctionId) (owed : List Payment) : List AuditLog :=
  owed.map fun p => ⟨none, .paymentPending, .payment a p.pk, ""⟩

theorem addPayments_none (d : Dossier) : d.addPayments [] = d := by
  simp [Dossier.addPayments]

theorem createPendingPayment_writes {auction : Auction} {r : Option Nat}
    (h : (createPendingPayment a auction).Exec sees s (.ok r) s') :
    ∃ owed, Writes a ((s.dossier a).addPayments owed) (dueAudit a owed) [] s s' := by
  have hnone : Writes a ((s.dossier a).addPayments []) (dueAudit a []) [] s s := by
    rw [addPayments_none]
    exact writes_refl a s
  unfold createPendingPayment at h
  rw [exec_query_bind] at h
  split at h
  · obtain ⟨_, rfl⟩ := (exec_pure ..).mp h
    exact ⟨[], hnone⟩
  · obtain ⟨p, t, hcreate, h⟩ := (exec_bind_ok ..).mp h
    simp only [createPayment, exec_nextPk_bind, exec_query_bind, exec_refuse_bind,
      exec_update_bind, exec_pure, reduceCtorEq, false_and, and_false, false_or,
      Except.ok.injEq] at hcreate
    obtain ⟨pk, _, _, rfl, rfl⟩ := hcreate
    obtain ⟨_, u, hrecord, hend⟩ := (exec_bind_ok ..).mp h
    obtain ⟨_, rfl⟩ := (exec_pure ..).mp hend
    exact ⟨[Payment.due pk _], (writes_amend a (.addPayment (Payment.due pk _)) s).stay
      (record_writes hrecord)⟩
  · obtain ⟨_, rfl⟩ := (exec_pure ..).mp h
    exact ⟨[], hnone⟩

/-- Who is told about the end of an auction. -/
def closingSent (a : AuctionId) (auction : Auction) (sale : Sale) : List Sent :=
  match sale.winner with
  | some winner => [⟨winner, .auctionWon, .auction a, auctionLink a⟩]
  | none => [⟨auction.seller, .auctionClosedNoWinner, .auction a, auctionLink a⟩]

theorem closeAuction_writes {actor : Option UserId} {reason : String} {row : Auction}
    (h : (closeAuction a actor reason).Exec sees s (.ok row) s') :
    ∃ owed rows, Writes a
      ((((s.dossier a).onRow (.withSale (saleOf (s.dossier a).row
        (highestAccepted (s.dossier a).bids)))).entered .closed actor reason).addPayments owed)
      (rows ++ dueAudit a owed)
      (closingSent a (s.dossier a).row
        (saleOf (s.dossier a).row (highestAccepted (s.dossier a).bids))) s s' := by
  simp only [closeAuction, exec_lockedAuction_bind, exec_refuse_bind, exec_query_bind,
    exec_saveAuction_bind, reduceCtorEq, false_and, and_false, false_or] at h
  obtain ⟨_, h⟩ := h
  obtain ⟨closed, t, htrans, h⟩ := (exec_bind_ok ..).mp h
  obtain ⟨_, _, hclosed, _⟩ := transition_ok htrans
  rw [amend_self] at hclosed
  have hmoved := (writes_amend a (.onRow (.withSale
    (saleOf (s.dossier a).row (highestAccepted (s.dossier a).bids)))) s).next
      (f := fun d => d.entered .closed actor reason) (transition_writes htrans)
  unfold closingSent
  cases hwinner : (saleOf (s.dossier a).row (highestAccepted (s.dossier a).bids)).winner with
  | none =>
    simp only [hwinner] at h
    obtain ⟨_, u, hnotify, hend⟩ := (exec_bind_ok ..).mp h
    obtain ⟨_, rfl⟩ := (exec_pure ..).mp hend
    have hall := hmoved.stay (notify_writes hnotify)
    rw [hclosed, ← addPayments_none (Dossier.entered ..), ← List.append_nil (_ ++ _)] at hall
    exact ⟨[], _, hall⟩
  | some winner =>
    simp only [hwinner] at h
    obtain ⟨_, u, hrecord, h⟩ := (exec_bind_ok ..).mp h
    obtain ⟨_, v, hnotify, h⟩ := (exec_bind_ok ..).mp h
    obtain ⟨_, _, hpay⟩ := exec_then_pure h
    obtain ⟨owed, hdue⟩ := createPendingPayment_writes hpay
    have htold := (hmoved.stay (record_writes hrecord)).stay (notify_writes hnotify)
    have hall := htold.next (f := Dossier.addPayments owed) hdue
    rw [hclosed] at hall
    simp only [Notice.sent, Notice.auction, Auction.withStatus, Dossier.onRow_row,
      Auction.withSale_winner, hwinner] at hall
    exact ⟨owed, _, hall⟩

end Bidding

section Payments
variable {s s' : Database} {a : AuctionId}

/-- The row that `payment.auction` shows to somebody who is alone. -/
def LoadedPayment.auctionRow (payment : LoadedPayment) (s : Database) : Auction :=
  payment.cachedAuction.getD (s.dossier payment.auction).row

theorem auctionRow_current {payment : LoadedPayment} (hcached : ∀ row,
    payment.cachedAuction = some row → row = (s.dossier payment.auction).row) :
    payment.auctionRow s = (s.dossier payment.auction).row := by
  unfold LoadedPayment.auctionRow
  cases hc : payment.cachedAuction with
  | none => rfl
  | some row => exact hcached row hc

theorem getAuction_exact {payment : LoadedPayment} {row : Auction}
    (h : payment.getAuction.Exec Exact s (.ok row) s') : row = payment.auctionRow s ∧ s' = s := by
  unfold LoadedPayment.getAuction at h
  unfold LoadedPayment.auctionRow
  split at h
  · obtain ⟨hrow, rfl⟩ := (exec_pure ..).mp h
    rw [‹payment.cachedAuction = _›, Option.getD_some]
    exact ⟨Except.ok.inj hrow, rfl⟩
  · obtain ⟨hrow, rfl⟩ := exists_exact.mp ((exec_glance ..).mp h)
    rw [‹payment.cachedAuction = _›, Option.getD_none]
    exact ⟨Except.ok.inj hrow, rfl⟩

/-- What is sent about a payment received. -/
def receivedSent (a : AuctionId) (pk : Nat) (auction : Auction) : List Sent :=
  (auction.winner.toList ++ [auction.seller]).map fun u =>
    ⟨u, .paymentReceived, .payment a pk, auctionLink a⟩

/-- What a payment received does to what the tables hold about its auction. -/
def Dossier.received (pk : Nat) (actor : UserId) (method reference notes : String) (t : Time)
    (d : Dossier) : Dossier :=
  let paid := d.onPayment pk (.paidWith actor method reference notes t)
  if d.row.status = .closed then paid.entered .settled (some actor) "Payment recorded as received"
  else paid

/-- All that `mark_paid` leaves behind: whether the auction moves depends on the row that
the payment shows. -/
theorem markPaid_writes {payment : LoadedPayment} {actor : UserId} {method reference notes : String}
    {p : Payment} (h : (markPaid payment actor method reference notes).Exec Exact s (.ok p) s') :
    Writes payment.auction
      (let paid := (s.dossier payment.auction).onPayment payment.row.pk
        (.paidWith actor method reference notes s.clock)
      if (payment.auctionRow s).status = .closed then
        paid.entered .settled (some actor) "Payment recorded as received"
      else paid)
      [⟨some actor, .paymentReceived, .payment payment.auction payment.row.pk, ""⟩]
      (receivedSent payment.auction payment.row.pk (payment.auctionRow s)) s s' := by
  simp only [markPaid, exec_refuse_bind, exec_now_bind, exec_savePayment_bind, exists_exact,
    reduceCtorEq, false_and, and_false, false_or] at h
  obtain ⟨_, _, hsaved⟩ := h
  obtain ⟨_, t, hrecord, hread⟩ := (exec_bind_ok ..).mp hsaved
  have hpaid := (writes_amend payment.auction (.onPayment payment.row.pk
    (.paidWith actor method reference notes s.clock)) s).stay (record_writes hrecord)
  obtain ⟨row, _, hread, hrest⟩ := (exec_bind_ok ..).mp hread
  obtain ⟨hrow, rfl⟩ := getAuction_exact hread
  have hshown : row = payment.auctionRow s := by
    rw [hrow, LoadedPayment.auctionRow, hpaid.became.here]
    rfl
  rw [← hshown]
  obtain ⟨_, v, hsettle, hrest⟩ := (exec_bind_ok ..).mp hrest
  obtain ⟨_, w, hnotify, hrest⟩ := (exec_bind_ok ..).mp hrest
  obtain ⟨_, rfl⟩ := (exec_pure ..).mp hrest
  obtain ⟨_, x, hbuyer, hseller⟩ := (exec_bind_ok ..).mp hnotify
  have htold := (notify_writes (a := payment.auction) hbuyer).stay (notify_writes hseller)
  rcases (exec_when ..).mp hsettle with ⟨hclosed, hmove⟩ | ⟨hopen, _, rfl⟩
  · obtain ⟨_, _, htrans⟩ := exec_then_pure hmove
    have hsettled := hpaid.next (f := fun d => d.entered .settled (some actor)
      "Payment recorded as received") (transition_writes htrans)
    simp only [if_pos hclosed, receivedSent, List.map_append]
    exact hsettled.stay htold
  · simp only [if_neg hopen, receivedSent, List.map_append]
    exact hpaid.stay htold

theorem createNotification_writes {sees : Database → Database → Prop} {user pk : Nat} {n : Notice}
    (h : (createNotification user n).Exec sees s (.ok pk) s') :
    Writes a (s.dossier a) [] [⟨user, n.event, n.obj, n.link⟩] s s' := by
  obtain ⟨_, _, rfl⟩ := exec_createNotification.mp h
  exact ⟨⟨rfl, fun _ _ => rfl, rfl⟩, ⟨rfl, rfl⟩, ⟨rfl, rfl, rfl⟩, (List.append_nil _).symm, [_], rfl, rfl⟩

/-- A notification outside any transaction: the row, and then the message. -/
theorem notifyTask_writes {first : Database} {d : Dossier} {rows : List AuditLog} {sent : List Sent}
    (notice : Notice) (result : Value) (h : Writes a d rows sent first s) {n : Nat} :
    (notifyTask notice (.done result)).Ensures engine False (fun _ out s' => ∀ v, out = .ok v →
      Writes a d rows (sent ++ notice.sent) first s') n s := by
  unfold notifyTask
  split
  · next hnobody =>
    simp only [Notice.sent, hnobody, Option.toList_none, List.map_nil, List.append_nil]
    exact fun _ _ => h
  · next user hsomebody =>
    refine ⟨fun r s' hx => ?_, fun e s' _ v hv => (by cases hv), False.elim⟩
    obtain ⟨pk, rfl, hcreate⟩ := exec_then_pure hx
    refine ⟨fun r s'' hx => ?_, fun e s' _ v hv => (by cases hv), False.elim⟩
    obtain ⟨_, _, hsend⟩ := exec_then_pure hx
    obtain ⟨_, rfl⟩ := exec_send.mp hsend
    intro _ _
    have hall := h.stay (createNotification_writes hcreate)
    rw [List.append_nil] at hall
    simp only [Notice.sent, hsomebody, Option.toList_some, List.map_cons, List.map_nil]
    exact hall

/-- What is sent about a payment that failed. -/
def failedSent (a : AuctionId) (pk : Nat) (auction : Auction) : List Sent :=
  auction.winner.toList.map fun u => ⟨u, .paymentFailed, .payment a pk, auctionLink a⟩

/-- All that `mark_failed` leaves behind. -/
theorem markFailed_writes (first : Database) (payment : LoadedPayment) (actor : UserId)
    (reason : String) : Returns (fun s' => Writes payment.auction
        ((first.dossier payment.auction).onPayment payment.row.pk (.failedWith actor reason))
        [⟨some actor, .paymentFailed, .payment payment.auction payment.row.pk, reason⟩]
        (failedSent payment.auction payment.row.pk (payment.auctionRow first)) first s')
      (markFailedTask payment actor reason) first := by
  unfold markFailedTask
  split
  · exact fun v hv => by cases hv
  split
  · exact fun v hv => by cases hv
  refine ⟨fun r s' hx => ?_, fun e s' _ v hv => (by cases hv), False.elim⟩
  obtain ⟨_, _, hsave⟩ := exec_then_pure hx
  obtain ⟨_, rfl⟩ := (exec_savePayment _).mp hsave
  refine ⟨fun r s' hx => ?_, fun e s' _ v hv => (by cases hv), False.elim⟩
  obtain ⟨_, _, hrecord⟩ := exec_then_pure hx
  have hrecorded := (writes_amend payment.auction (.onPayment payment.row.pk
    (.failedWith actor reason)) first).stay (record_writes hrecord)
  have hfinish := notifyTask_writes
    (paymentFailedNotice payment.auction (payment.auctionRow first) payment.row.pk reason)
    (.payment (payment.row.failedWith actor reason)) hrecorded (n := 2)
  unfold LoadedPayment.auctionRow at hfinish ⊢
  cases hcached : payment.cachedAuction with
  | some row =>
    rw [hcached] at hfinish
    exact hfinish
  | none =>
    have hrow : (s'.dossier payment.auction).row = (first.dossier payment.auction).row := by
      rw [hrecorded.became.here]
      rfl
    rw [hcached, Option.getD_none, ← hrow] at hfinish
    refine ⟨?_, False.elim⟩
    rw [Option.getD_none, ← hrow]
    exact hfinish

theorem markRefunded_writes {sees : Database → Database → Prop} {payment : Payment}
    {actor : UserId} {reason : String} {r : Unit}
    (h : (markRefunded a payment actor reason).Exec sees s (.ok r) s') :
    Writes a ((s.dossier a).onPayment payment.pk (.refundedWith actor payment.notes reason))
      [⟨some actor, .paymentRefunded, .payment a payment.pk, reason⟩] [] s s' := by
  simp only [markRefunded, exec_refuse_bind, exec_savePayment_bind, reduceCtorEq, false_and,
    and_false, false_or] at h
  obtain ⟨_, _, hrecord⟩ := h
  exact (writes_amend a (.onPayment payment.pk (.refundedWith actor payment.notes reason)) s).stay
    (record_writes hrecord)

end Payments

section Disputes
variable {s s' : Database} {a : AuctionId}

/-- Whom `open_dispute` notifies. -/
def openingRecipients (s : Database) (auction : Auction) (raisedBy : UserId) : List UserId :=
  (withOther (staffUsers s) (otherParty auction raisedBy)).filter (fun u => u ≠ raisedBy)

/-- What is sent about a dispute. -/
def disputeSent (a : AuctionId) (pk : Nat) (event : NotificationEvent) (recipients : List UserId) :
    List Sent :=
  recipients.map fun u => ⟨u, event, .dispute a pk, s!"/disputes/{pk}/"⟩

/-- All that a dispute leaves behind when it is opened. -/
theorem openDispute_writes {raisedBy : UserId} {category description : String} {x : Dispute}
    (h : (openDispute a raisedBy category description).Exec Exact s (.ok x) s') :
    x.status = .opened ∧ x.raisedBy = raisedBy ∧ x.pk ∉ (s.dossier a).disputes.map Dispute.pk ∧
    raisedBy ∈ auctionParticipants (s.dossier a).row (s.dossier a).bids ∧
    ∃ reason, Writes a (((s.dossier a).addDispute x).entered .disputed (some raisedBy) reason)
      [⟨some raisedBy, .disputeCreated, .dispute a x.pk, shortened (strip description)⟩]
      (disputeSent a x.pk .disputeOpened (openingRecipients s (s.dossier a).row raisedBy)) s s' := by
  simp only [openDispute, createDispute, exec_refuse_bind, exec_require_bind,
    exec_lockedAuction_bind, exec_query_bind, activeDisputeExists, exec_glance_bind, exists_exact,
    reduceCtorEq, false_and, and_false, false_or] at h
  obtain ⟨_, kind, _, _, hraiser, _, h⟩ := h
  obtain ⟨y, t, hcreate, h⟩ := (exec_bind_ok ..).mp h
  simp only [exec_nextPk_bind, exec_glance_bind, exec_refuse_bind, exec_insertDispute_bind,
    exists_exact, exec_pure, reduceCtorEq, false_and, and_false, false_or, Except.ok.injEq] at hcreate
  obtain ⟨pk, hfresh, _, rfl, rfl⟩ := hcreate
  obtain ⟨_, v, htrans, h⟩ := (exec_bind_ok ..).mp h
  obtain ⟨_, w, hrecord, h⟩ := (exec_bind_ok ..).mp h
  simp only [exec_glance_bind, exists_exact] at h
  obtain ⟨_, z, hnotify, hend⟩ := (exec_bind_ok ..).mp h
  obtain ⟨hx, rfl⟩ := (exec_pure ..).mp hend
  cases hx
  have hmoved := ((writes_amend a (.addDispute _) s).next
    (f := fun d => d.entered .disputed (some raisedBy) s!"Dispute #{pk} raised")
    (transition_writes htrans)).stay (record_writes hrecord)
  have hstaff : staffUsers w = staffUsers s := by
    simp only [staffUsers, hmoved.people.2.1, hmoved.people.2.2]
  have hall := hmoved.stay (notifyAll_writes hnotify)
  simp only [hstaff, Notice.sent, Option.toList_some, List.map_cons, List.map_nil,
    flatMap_sent] at hall
  exact ⟨rfl, rfl, hfresh, not_not.mp hraiser, _, hall⟩

theorem takeForReview_writes {sees : Database → Database → Prop} {pk : Nat} {actor : UserId}
    {x : Dispute} (h : (takeForReview a pk actor).Exec sees s (.ok x) s') :
    (∃ y, (s.dossier a).disputes.find? (fun y => y.pk = pk) = some y ∧ y.status = .opened) ∧
      Writes a ((s.dossier a).onDispute pk (.takenBy actor)) [] [] s s' := by
  simp only [takeForReview, exec_lockedDispute_bind, exec_refuse_bind, exec_saveDispute_bind,
    exec_pure, reduceCtorEq, false_and, and_false, false_or] at h
  obtain ⟨y, hfound, hopened, _, rfl⟩ := h
  exact ⟨⟨y, hfound, not_not.mp hopened⟩, writes_amend a (.onDispute pk (.takenBy actor)) s⟩

/-- The refund that goes with a resolution, if there is one. -/
def Dossier.refundedBy (actor : UserId) (reason : String) (refund : Bool) (d : Dossier) : Dossier :=
  match refund, d.payments.head? with
  | true, some p => d.onPayment p.pk (.refundedWith actor p.notes reason)
  | _, _ => d

/-- It touches nothing but the payments. -/
theorem refundedBy_frame (actor : UserId) (reason : String) (refund : Bool) (d : Dossier) :
    (d.refundedBy actor reason refund).row = d.row ∧
      (d.refundedBy actor reason refund).bids = d.bids := by
  unfold Dossier.refundedBy
  split <;> exact ⟨rfl, rfl⟩

def refundAudit (a : AuctionId) (actor : UserId) (reason : String) (refund : Bool) (d : Dossier) :
    List AuditLog :=
  match refund, d.payments.head? with
  | true, some p => [⟨some actor, .paymentRefunded, .payment a p.pk, reason⟩]
  | _, _ => []

/-- Whom `resolve_dispute` notifies. -/
def resolvingRecipients (auction : Auction) (raisedBy : UserId) : List UserId :=
  withOther [raisedBy] (otherParty auction raisedBy)

theorem refund_writes {pk : Nat} {actor : UserId} {notes : String} {refund : Bool} {r : Unit}
    (h : (Tx.when (refund = true) (refundFor a pk actor notes)).Exec Exact s (.ok r) s') :
    Writes a ((s.dossier a).refundedBy actor s!"Dispute #{pk}: {notes}" refund)
      (refundAudit a actor s!"Dispute #{pk}: {notes}" refund (s.dossier a)) [] s s' := by
  rcases (exec_when ..).mp h with ⟨rfl, hpaid⟩ | ⟨hkept, _, rfl⟩
  · simp only [refundFor, exec_glance_bind, exec_require_bind, exec_refuse_bind, exists_exact,
      reduceCtorEq, false_and, and_false, false_or] at hpaid
    obtain ⟨p, hhead, _, hrefunded⟩ := hpaid
    simp only [Dossier.refundedBy, refundAudit, hhead]
    exact markRefunded_writes hrefunded
  · rw [Bool.eq_false_of_not_eq_true hkept]
    exact writes_refl a s'

/-- All that the resolution of a dispute leaves behind. -/
theorem resolveDispute_writes {pk : Nat} {actor : UserId} {outcome notes : String} {refund : Bool}
    {x : Dispute} (h : (resolveDispute a pk actor outcome notes refund).Exec Exact s (.ok x) s') :
    ∃ y result reason restored,
      (s.dossier a).disputes.find? (fun y => y.pk = pk) = some y ∧
      x = y.resolvedWith actor result (strip notes) refund s.clock ∧
      Writes a ((((s.dossier a).refundedBy actor s!"Dispute #{pk}: {strip notes}" refund).returned y
          refund actor reason restored).onDispute pk
          (.resolvedWith actor result (strip notes) refund s.clock))
        (refundAudit a actor s!"Dispute #{pk}: {strip notes}" refund (s.dossier a) ++
          [⟨some actor, .auctionClosed, .auction a, reason⟩] ++
          [⟨some actor, .disputeResolved, .dispute a pk, shortened (strip notes)⟩])
        (disputeSent a pk .disputeResolved (resolvingRecipients (s.dossier a).row y.raisedBy))
        s s' := by
  simp only [resolveDispute, exec_require_bind, exec_refuse_bind, exec_lockedDispute_bind,
    exec_glance_bind, exists_exact, reduceCtorEq, false_and, and_false, false_or] at h
  obtain ⟨result, _, _, y, hfound, _, h⟩ := h
  obtain ⟨_, t, hrefund, h⟩ := (exec_bind_ok ..).mp h
  obtain ⟨_, v, hclose, h⟩ := (exec_bind_ok ..).mp h
  obtain ⟨_, w, hrestore, h⟩ := (exec_bind_ok ..).mp h
  simp only [exec_now_bind, exec_saveDispute_bind, exists_exact] at h
  obtain ⟨_, z, hrecord, h⟩ := (exec_bind_ok ..).mp h
  obtain ⟨_, z', hnotify, hend⟩ := (exec_bind_ok ..).mp h
  obtain ⟨hx, rfl⟩ := (exec_pure ..).mp hend
  have hclosed := (refund_writes hrefund).next
    (f := fun d => d.entered .closed (some actor) s!"Dispute #{pk} resolved")
    (transition_writes hclose)
  have hreturned : Writes a (((s.dossier a).refundedBy actor s!"Dispute #{pk}: {strip notes}"
        refund).returned y refund actor s!"Dispute #{pk} resolved" s!"Restored after dispute #{pk}")
      (refundAudit a actor s!"Dispute #{pk}: {strip notes}" refund (s.dossier a) ++
        [⟨some actor, .auctionClosed, .auction a, s!"Dispute #{pk} resolved"⟩]) [] s w := by
    unfold Dossier.returned
    rcases (exec_when ..).mp hrestore with ⟨hc, hmove⟩ | ⟨hc, _, rfl⟩
    · obtain ⟨_, _, htrans⟩ := exec_then_pure hmove
      have hsettled := hclosed.next (f := fun d => d.entered .settled (some actor)
        s!"Restored after dispute #{pk}") (transition_writes htrans)
      rw [if_pos hc]
      simp only [List.append_assoc] at hsettled
      exact hsettled
    · rw [if_neg hc]
      exact hclosed
  have hsaved := (hreturned.next (writes_amend a (.onDispute pk (.resolvedWith actor result
    (strip notes) refund w.clock)) w)).stay (record_writes hrecord)
  have hall := hsaved.stay (notifyAll_writes hnotify)
  simp only [Notice.sent, Option.toList_some, List.map_cons, List.map_nil, flatMap_sent,
    hreturned.became.clock, resolvedWith_pk, (find_key hfound).2, List.append_nil,
    List.nil_append] at hall
  rw [hreturned.became.clock] at hx
  exact ⟨y, result, _, _, hfound, Except.ok.inj hx, hall⟩

end Disputes

end MbararaAuction
