import MbararaAuction.Proofs.Changes

namespace MbararaAuction
open Transactions

seal Tx.Exec

/-- The unlocked reads of a transaction that began at the time `t` stay within `view`. -/
def View.Admits (view : View) (sees : Database → Database → Prop) (a : AuctionId) (t : Time) : Prop :=
  ∀ v u, v.clock = t → sees v u → view.row (v.dossier a) (u.dossier a) ∧ view.clock u.clock

theorem any_admits (sees : Database → Database → Prop) (a : AuctionId) (t : Time) :
    View.any.Admits sees a t := fun _ _ _ _ => ⟨trivial, trivial⟩

theorem alone_admits (a : AuctionId) (t : Time) : (View.alone t).Admits Exact a t := by
  rintro v u rfl rfl
  exact ⟨rfl, rfl⟩

/-- The dossier of `a` made the move `act`, and nothing else moved. -/
def Moved (view : View) (act : Action) (a : AuctionId) (s s' : Database) : Prop :=
  ∃ d, Move view act (s.dossier a) d ∧ Became a d s s'

section Lifecycle
variable {view : View} {sees : Database → Database → Prop} {s s' : Database} {a : AuctionId}
variable {toStatus : Status} {actor : Option UserId} {reason : String} {row : Auction}

theorem transition_moved (h : (transition a toStatus actor reason).Exec sees s (.ok row) s')
    (early : toStatus.beforeClose) (still : toStatus ≠ .live) :
    Moved view (.enter toStatus) a s s' := by
  obtain ⟨allowed, reasoned, _, hb⟩ := transition_ok h
  exact ⟨_, .enter allowed early still reasoned, hb⟩

theorem activate_moved (h : (activate a actor).Exec sees s (.ok row) s') :
    Moved view (.enter .live) a s s' := by
  obtain ⟨allowed, _, _, hb⟩ := transition_ok h
  exact ⟨_, .activate allowed, hb⟩

end Lifecycle

section Scheduling
variable {view : View} {sees : Database → Database → Prop} {s s' : Database} {a : AuctionId}
variable {actor : UserId} {reason : String} {row : Auction}

/-- A start by hand puts the start at the present, at the latest. -/
theorem startNow_ok (h : (startNow a actor).Exec sees s (.ok row) s') :
    ∃ u, sees s u ∧ (s.dossier a).row.status = .scheduled ∧ u.clock < (s.dossier a).row.endTime ∧
      Became a (((s.dossier a).onRow (.withStart (min (s.dossier a).row.startTime u.clock))).entered
        .live (some actor) "Started manually by staff") s s' := by
  simp only [startNow, exec_lockedAuction_bind, exec_refuse_bind, exec_now_bind, reduceCtorEq,
    false_and, and_false, false_or] at h
  obtain ⟨hstatus, u, hu, hend, h⟩ := h
  obtain ⟨_, v, hstart, htrans⟩ := (exec_bind_ok ..).mp h
  obtain ⟨_, _, _, hb⟩ := transition_ok htrans
  refine ⟨u, hu, not_not.mp hstatus, not_le.mp hend, ?_⟩
  rcases (exec_when ..).mp hstart with ⟨hlate, hsave⟩ | ⟨hsoon, _, hsame⟩
  · rw [exec_saveAuction_bind] at hsave
    have hsaved := (became_amend a (.onRow (.withStart u.clock)) s).aside
      ((quiet_record ..).exec hsave).2
    rw [hsaved.here, ← min_eq_right hlate.le] at hb
    exact hsaved.trans hb
  · subst v
    have hkept : (s.dossier a).onRow (.withStart (s.dossier a).row.startTime) = s.dossier a := rfl
    rw [← hkept, ← min_eq_left (not_lt.mp hsoon)] at hb
    exact hb

theorem startNow_moved (hv : view.Admits sees a s.clock)
    (h : (startNow a actor).Exec sees s (.ok row) s') : Moved view (.enter .live) a s s' := by
  obtain ⟨u, hu, hscheduled, hend, hb⟩ := startNow_ok h
  exact ⟨_, .start hscheduled (hv s u rfl hu).2 hend, hb⟩

theorem reschedule_moved {startTime endTime : Option Time}
    (h : (reschedule a actor reason startTime endTime).Exec sees s (.ok row) s') :
    Moved view .reschedule a s s' := by
  simp only [reschedule, exec_ofExcept_bind, exec_lockedAuction_bind, exec_refuse_bind,
    exec_now_bind, exec_saveAuction_bind, reduceCtorEq, false_and, and_false, false_or,
    exists_false] at h
  obtain ⟨text, _, u, _, hopen, _, hstart, horder, _, _, hlive, h⟩ := h
  obtain ⟨_, t, ht, h⟩ := (quiet_record ..).skip h
  obtain ⟨_, hv⟩ := (quiet_notifyAuctionUpdate ..).last h
  have hb := ((became_amend a (.onRow (.withTimes (startTime.getD (s.dossier a).row.startTime)
    (endTime.getD (s.dossier a).row.endTime))) s).aside ht).aside hv
  refine ⟨_, .reschedule (Bool.eq_true_of_not_eq_false hopen) ?_ ?_ (not_le.mp horder), hb⟩
  · intro hstarted
    cases hs : startTime with
    | none => rfl
    | some t => exact absurd ⟨by simp [hs], hstarted⟩ hstart
  · intro hl
    cases he : endTime with
    | none => exact le_refl _
    | some t =>
      simp only [he, Option.getD_some, hl, true_and, ne_eq, reduceCtorEq, not_false_eq_true,
        not_le] at hlive
      exact hlive.le

theorem pause_moved (h : (pause a actor reason).Exec sees s (.ok row) s') :
    Moved view (.enter .paused) a s s' := by
  simp only [pause, exec_ofExcept_bind, exec_lockedAuction_bind, reduceCtorEq, false_and, and_false,
    exists_false, false_or] at h
  obtain ⟨text, _, h⟩ := h
  obtain ⟨_, t, htrans, h⟩ := (exec_bind_ok ..).mp h
  obtain ⟨_, u, hu, h⟩ := (quiet_record ..).skip h
  obtain ⟨_, hv⟩ := (quiet_notifyAuctionUpdate ..).last h
  obtain ⟨d, hm, hb⟩ : Moved view (.enter .paused) a s t :=
    transition_moved htrans rfl (by decide)
  exact ⟨d, hm, (hb.aside hu).aside hv⟩

theorem resume_ok (h : (resume a actor).Exec sees s (.ok row) s') :
    ∃ u, sees s u ∧ (s.dossier a).row.status = .paused ∧ u.clock < (s.dossier a).row.endTime ∧
      Became a ((s.dossier a).entered .live (some actor) "Resumed by staff") s s' := by
  simp only [resume, exec_lockedAuction_bind, exec_refuse_bind, exec_now_bind, reduceCtorEq,
    false_and, and_false, false_or] at h
  obtain ⟨hpaused, u, hu, hend, h⟩ := h
  obtain ⟨_, t, htrans, h⟩ := (exec_bind_ok ..).mp h
  obtain ⟨_, w, hw, h⟩ := (quiet_record ..).skip h
  obtain ⟨_, hx⟩ := (quiet_notifyAuctionUpdate ..).last h
  obtain ⟨_, _, _, hb⟩ := transition_ok htrans
  exact ⟨u, hu, not_not.mp hpaused, not_le.mp hend, (hb.aside hw).aside hx⟩

theorem resume_moved (hv : view.Admits sees a s.clock)
    (h : (resume a actor).Exec sees s (.ok row) s') : Moved view (.enter .live) a s s' := by
  obtain ⟨u, hu, hpaused, hend, hb⟩ := resume_ok h
  exact ⟨_, .resume hpaused (hv s u rfl hu).2 hend, hb⟩

theorem cancelAuction_moved (h : (cancelAuction a actor reason).Exec sees s (.ok row) s') :
    Moved view (.enter .cancelled) a s s' := by
  simp only [cancelAuction, exec_ofExcept_bind, exec_lockedAuction_bind, exec_refuse_bind,
    reduceCtorEq, false_and, and_false, exists_false, false_or] at h
  obtain ⟨text, _, _, h⟩ := h
  obtain ⟨_, t, htrans, h⟩ := (exec_bind_ok ..).mp h
  obtain ⟨_, hv⟩ := (quiet_notifyAuctionUpdate ..).last h
  obtain ⟨d, hm, hb⟩ : Moved view (.enter .cancelled) a s t :=
    transition_moved htrans rfl (by decide)
  exact ⟨d, hm, hb.aside hv⟩

end Scheduling

section Bidding
variable {view : View} {sees : Database → Database → Prop} {s s' : Database} {a : AuctionId}

theorem createBid_ok {bidder : UserId} {amount : Money} {sequenceNo : Nat} {b : Bid}
    (h : (createBid a bidder amount sequenceNo).Exec sees s (.ok b) s') :
    b.bidder = bidder ∧ b.amount = amount ∧ b.sequenceNo = sequenceNo ∧ b.status = .accepted ∧
    0 < b.amount ∧ b.pk ∉ (s.dossier a).bids.map Bid.pk ∧ s' = s.amend a (.addBid b) := by
  simp only [createBid, exec_nextPk_bind, exec_now_bind, exec_query_bind, exec_refuse_bind,
    exec_update_bind, exec_pure, reduceCtorEq, false_and, and_false, false_or, Except.ok.injEq] at h
  obtain ⟨pk, hfresh, u, _, _, hpositive, rfl, rfl⟩ := h
  exact ⟨rfl, rfl, rfl, rfl, not_le.mp hpositive, hfresh, rfl⟩

theorem placeBid_moved (hv : view.Admits sees a s.clock) {bidderUser : UserId} {amount : Number}
    {bid : Bid} (h : (placeBid a bidderUser amount).Exec sees s (.ok bid) s') :
    Moved view .bid a s s' := by
  simp only [placeBid, exec_ofExcept_bind, exec_lockedAuction_bind, exec_now_bind,
    exec_glance_bind, exec_query_bind, exec_refuse_bind, reduceCtorEq, false_and, and_false,
    exists_false, false_or] at h
  obtain ⟨value, _, u, hu, hopen, _, _, _, _, _, _, hseller, henough, h⟩ := h
  obtain ⟨b, t, hcreate, h⟩ := (exec_bind_ok ..).mp h
  obtain ⟨hbidder, hamount, hnext, hstanding, hpositive, hfresh, rfl⟩ := createBid_ok hcreate
  obtain ⟨_, v, hextended, h⟩ := (quiet_when _ (quiet_record ..)).skip h
  rw [exec_saveAuction_bind] at h
  obtain ⟨_, w, hplaced, h⟩ := (quiet_record ..).skip h
  obtain ⟨_, houtbid⟩ := (quiet_notifyOutbid ..).last h
  have hlive : (s.dossier a).row.status = .live := by
    by_contra hne
    exact hopen (.inl hne)
  have hwindow : (s.dossier a).row.startTime ≤ u.clock ∧ u.clock < (s.dossier a).row.endTime := by
    by_contra hne
    exact hopen (.inr hne)
  have hb := (((became_amend a (.addBid b) s).aside hextended).trans
    (became_amend a (.onRow (.withBid value.money (extendedEnd (s.dossier a).row u.clock))) v)).aside
    hplaced
  have hb' := hb.aside houtbid
  rw [hextended.dossier, amend_self] at hb'
  rw [← hamount] at henough hb'
  rw [← hbidder] at hseller
  exact ⟨_, .bid hlive (hv s u rfl hu).2 hwindow hseller (not_lt.mp henough) hpositive hnext
    hstanding hfresh, hb'⟩

theorem invalidateBid_moved {pk : Nat} {actor : UserId} {reason : String} {r : Unit}
    (h : (invalidateBid a pk actor reason).Exec sees s (.ok r) s') :
    Moved view (.invalidate pk) a s s' := by
  simp only [invalidateBid, exec_lockedAuction_bind, exec_now_bind, exec_saveBid_bind,
    exec_query_bind, exec_saveAuction_bind] at h
  obtain ⟨u, _, hrecord⟩ := h
  have hb := ((became_amend a (.onBid pk (.invalidatedWith actor reason u.clock)) s).trans
    (became_amend a (.onRow (.withHighest _)) _)).aside ((quiet_record ..).exec hrecord).2
  rw [amend_self] at hb
  exact ⟨_, .invalidate, hb⟩

theorem addPayments_nil (d : Dossier) : d.addPayments [] = d := by
  simp [Dossier.addPayments]

theorem createPendingPayment_ok {auction : Auction} {sale : Sale} {r : Option Nat}
    (hw : auction.winner = sale.winner) (hp : auction.finalPrice = sale.finalPrice)
    (h : (createPendingPayment a auction).Exec sees s (.ok r) s') :
    ∃ owed, Owed sale (s.dossier a).payments owed ∧
      Became a ((s.dossier a).addPayments owed) s s' := by
  simp only [createPendingPayment, exec_query_bind, hw, hp] at h
  cases hpayments : (s.dossier a).payments with
  | cons p ps =>
    simp only [hpayments, List.map_cons, List.head?_cons, exec_pure] at h
    refine ⟨[], ?_, ?_⟩
    · unfold Owed
      split <;> simp
    · rw [h.2, addPayments_nil]
      exact (Aside.refl s).became a
  | nil =>
    simp only [hpayments, List.map_nil, List.head?_nil] at h
    unfold Owed
    cases hwinner : sale.winner with
    | none =>
      simp only [hwinner, exec_pure] at h
      refine ⟨[], rfl, ?_⟩
      rw [h.2, addPayments_nil]
      exact (Aside.refl s).became a
    | some u =>
      cases hprice : sale.finalPrice with
      | none =>
        simp only [hwinner, hprice, exec_pure] at h
        refine ⟨[], rfl, ?_⟩
        rw [h.2, addPayments_nil]
        exact (Aside.refl s).became a
      | some price =>
        simp only [hwinner, hprice] at h
        obtain ⟨p, t, hcreate, h⟩ := (exec_bind_ok ..).mp h
        simp only [createPayment, exec_nextPk_bind, exec_query_bind, exec_refuse_bind,
          exec_update_bind, exec_pure, reduceCtorEq, false_and, and_false, false_or,
          Except.ok.injEq] at hcreate
        obtain ⟨pk, _, _, rfl, rfl⟩ := hcreate
        obtain ⟨_, hrecord⟩ := (quiet_record ..).last h
        exact ⟨[Payment.due pk price], by simp only [↓reduceIte]; exact ⟨pk, rfl⟩,
          (became_amend a (.addPayment (Payment.due pk price)) s).aside hrecord⟩

theorem sale_unpaid {sale : Sale} (h : sale.winner = none) (payments : List Payment) :
    Owed sale payments [] := by
  simp only [Owed, h]

theorem closeAuction_moved {actor : Option UserId} {reason : String} {row : Auction}
    (h : (closeAuction a actor reason).Exec sees s (.ok row) s') : Moved view .close a s s' := by
  simp only [closeAuction, exec_lockedAuction_bind, exec_refuse_bind, exec_query_bind,
    exec_saveAuction_bind, reduceCtorEq, false_and, and_false, false_or] at h
  obtain ⟨hlive, h⟩ := h
  obtain ⟨closed, t, htrans, h⟩ := (exec_bind_ok ..).mp h
  obtain ⟨_, _, hclosed, hb⟩ := transition_ok htrans
  rw [amend_self] at hclosed hb
  have hsaved := (became_amend a (.onRow (.withSale
    (saleOf (s.dossier a).row (highestAccepted (s.dossier a).bids)))) s).trans hb
  cases hwinner : (saleOf (s.dossier a).row (highestAccepted (s.dossier a).bids)).winner with
  | none =>
    simp only [hwinner] at h
    obtain ⟨_, hu⟩ := (quiet_notify _).last h
    have hb' := hsaved.aside hu
    rw [← addPayments_nil (Dossier.entered ..)] at hb'
    exact ⟨_, .close (not_not.mp hlive) (sale_unpaid hwinner _), hb'⟩
  | some w =>
    simp only [hwinner] at h
    obtain ⟨_, u, hu, h⟩ := (quiet_record ..).skip h
    obtain ⟨_, v, hv, h⟩ := (quiet_notify _).skip h
    obtain ⟨_, _, hpay⟩ := exec_then_pure h
    have hwin : closed.winner =
        (saleOf (s.dossier a).row (highestAccepted (s.dossier a).bids)).winner := by
      rw [hclosed]
      rfl
    obtain ⟨owed, howed, hb'⟩ := createPendingPayment_ok hwin (by rw [hclosed]; rfl) hpay
    have hbefore := (hsaved.aside hu).aside hv
    rw [hbefore.here] at howed hb'
    exact ⟨_, .close (not_not.mp hlive) howed, hbefore.trans hb'⟩

/-- Ending an auction by hand is closing it. -/
theorem endNow_closes {actor : UserId} {reason : String} {row : Auction}
    (h : (endNow a actor reason).Exec sees s (.ok row) s') :
    ∃ reason, (closeAuction a (some actor) reason).Exec sees s (.ok row) s' := by
  simp only [endNow, exec_ofExcept_bind, exec_lockedAuction_bind, exec_refuse_bind, reduceCtorEq,
    false_and, and_false, exists_false, false_or] at h
  obtain ⟨text, _, _, h⟩ := h
  exact ⟨_, h⟩

theorem endNow_moved {actor : UserId} {reason : String} {row : Auction}
    (h : (endNow a actor reason).Exec sees s (.ok row) s') : Moved view .close a s s' := by
  obtain ⟨_, hclose⟩ := endNow_closes h
  exact closeAuction_moved hclose

end Bidding

section Payments
variable {view : View} {sees : Database → Database → Prop} {s s' : Database} {a : AuctionId}

theorem getAuction_ok {payment : LoadedPayment} {row : Auction} {t : Time}
    (hv : view.Admits sees payment.auction t) (ht : s.clock = t)
    (h : payment.getAuction.Exec sees s (.ok row) s') :
    payment.Shows view (s.dossier payment.auction) row ∧ s' = s := by
  unfold LoadedPayment.getAuction at h
  unfold LoadedPayment.Shows
  cases hc : payment.cachedAuction with
  | some cached =>
    simp only [hc, exec_pure, Except.ok.injEq] at h
    exact h
  | none =>
    simp only [hc, exec_glance, Except.ok.injEq] at h
    obtain ⟨u, hu, hrow, hlast⟩ := h
    exact ⟨⟨_, (hv s u ht hu).1, hrow⟩, hlast⟩

theorem markPaid_moved {payment : LoadedPayment} (hv : view.Admits sees payment.auction s.clock)
    {actor : UserId} {method reference notes : String} {p : Payment}
    (h : (markPaid payment actor method reference notes).Exec sees s (.ok p) s') :
    Moved view (.pay payment) payment.auction s s' := by
  simp only [markPaid, exec_refuse_bind, exec_now_bind, exec_savePayment_bind, reduceCtorEq,
    false_and, and_false, false_or] at h
  obtain ⟨hpending, u, _, _, h⟩ := h
  have hb := became_amend payment.auction
    (.onPayment payment.row.pk (.paidWith actor method reference notes u.clock)) s
  obtain ⟨_, t, ht, h⟩ := (quiet_record ..).skip h
  have hpaid := hb.aside ht
  obtain ⟨row, _, hread, hrest⟩ := (exec_bind_ok ..).mp h
  obtain ⟨hshown, hsame⟩ := getAuction_ok hv hpaid.clock hread
  rw [hpaid.here] at hshown
  subst hsame
  obtain ⟨_, v, hsettle, hrest⟩ := (exec_bind_ok ..).mp hrest
  obtain ⟨_, hw⟩ := (quiet_notifyPaymentReceived ..).last hrest
  rcases (exec_when ..).mp hsettle with ⟨hclosed, hmove⟩ | ⟨hopen, _, hsame⟩
  · obtain ⟨_, _, htrans⟩ := exec_then_pure hmove
    obtain ⟨hallowed, _, _, hb'⟩ := transition_ok htrans
    rw [hpaid.here] at hallowed hb'
    have hstatus : (s.dossier payment.auction).row.status = .closed := by
      cases hs : (s.dossier payment.auction).row.status <;>
        simp [hs, allowedTransitions] at hallowed ⊢
    exact ⟨_, .settle (not_not.mp hpending) hstatus, (hpaid.trans hb').aside hw⟩
  · subst hsame
    exact ⟨_, .pay (not_not.mp hpending) hshown hopen, hpaid.aside hw⟩

theorem savePaymentFailed_moved {payment : LoadedPayment} {actor : UserId} {reason : String}
    {r : Unit} (h : (savePaymentFailed payment actor reason).Exec sees s (.ok r) s') :
    Moved view (.fail payment) payment.auction s s' := by
  obtain ⟨_, rfl⟩ := (exec_savePayment ..).mp h
  exact ⟨_, .fail, became_amend _ _ _⟩

end Payments

section Disputes
variable {view : View} {sees : Database → Database → Prop} {s s' : Database} {a : AuctionId}

theorem openDispute_moved (hv : view.Admits sees a s.clock) {raisedBy : UserId}
    {category description : String} {x : Dispute}
    (h : (openDispute a raisedBy category description).Exec sees s (.ok x) s') :
    Moved view .dispute a s s' := by
  simp only [openDispute, createDispute, exec_refuse_bind, exec_require_bind,
    exec_lockedAuction_bind, exec_query_bind, activeDisputeExists, exec_glance_bind, reduceCtorEq,
    false_and, and_false, false_or] at h
  obtain ⟨_, kind, _, hdisputable, _, u, hu, hclear, h⟩ := h
  obtain ⟨y, t, hcreate, h⟩ := (exec_bind_ok ..).mp h
  simp only [exec_nextPk_bind, exec_glance_bind, exec_refuse_bind, exec_insertDispute_bind,
    exec_pure, reduceCtorEq, false_and, and_false, false_or, Except.ok.injEq] at hcreate
  obtain ⟨pk, hfresh, _, _, _, hy, rfl⟩ := hcreate
  obtain ⟨_, v, htrans, h⟩ := (exec_bind_ok ..).mp h
  obtain ⟨_, w, hw, h⟩ := (quiet_record ..).skip h
  simp only [exec_glance_bind] at h
  obtain ⟨_, _, h⟩ := h
  obtain ⟨_, hz⟩ := (quiet_forEach _ (fun _ => quiet_notify _)).last h
  obtain ⟨_, _, _, hb⟩ := transition_ok htrans
  rw [amend_self] at hb
  have hb' := (((became_amend a _ s).trans hb).aside hw).aside hz
  exact ⟨_, .dispute (Bool.eq_true_of_not_eq_false hdisputable) (hv s u rfl hu).1
    (Bool.eq_false_of_not_eq_true hclear) rfl rfl hfresh rfl, hb'⟩

theorem takeForReview_moved {pk : Nat} {actor : UserId} {x : Dispute}
    (h : (takeForReview a pk actor).Exec sees s (.ok x) s') :
    Moved view (.review pk) a s s' := by
  simp only [takeForReview, exec_lockedDispute_bind, exec_refuse_bind, exec_saveDispute_bind,
    exec_pure, reduceCtorEq, false_and, and_false, false_or] at h
  obtain ⟨y, hfound, hopened, _, rfl⟩ := h
  exact ⟨_, .review hfound (not_not.mp hopened), became_amend _ _ _⟩

theorem refundFor_ok (hv : view.Admits sees a s.clock) {pk : Nat} {actor : UserId}
    {notes : String} {r : Unit} (h : (refundFor a pk actor notes).Exec sees s (.ok r) s') :
    ∃ d, Refunds view true (s.dossier a) d ∧ Became a d s s' := by
  simp only [refundFor, markRefunded, exec_glance_bind, exec_require_bind, exec_refuse_bind,
    exec_savePayment_bind, reduceCtorEq, false_and, and_false, false_or] at h
  obtain ⟨u, hu, p, hhead, hpaid, _, _, hrecord⟩ := h
  have hb := (became_amend a _ s).aside ((quiet_record ..).exec hrecord).2
  exact ⟨_, ⟨_, p, actor, _, (hv s u rfl hu).1, hhead, not_not.mp hpaid, rfl⟩, hb⟩

theorem resolveDispute_moved (hv : view.Admits sees a s.clock) {pk : Nat} {actor : UserId}
    {outcome notes : String} {refund : Bool} {x : Dispute}
    (h : (resolveDispute a pk actor outcome notes refund).Exec sees s (.ok x) s') :
    Moved view (.resolve pk refund) a s s' := by
  simp only [resolveDispute, exec_require_bind, exec_refuse_bind, exec_lockedDispute_bind,
    exec_glance_bind, reduceCtorEq, false_and, and_false, false_or] at h
  obtain ⟨result, _, _, y, hfound, hactive, _, _, h⟩ := h
  obtain ⟨_, t, hrefund, h⟩ := (exec_bind_ok ..).mp h
  obtain ⟨d, hd, hb⟩ : ∃ d, Refunds view refund (s.dossier a) d ∧ Became a d s t := by
    rcases (exec_when ..).mp hrefund with ⟨hr, hpaid⟩ | ⟨hr, _, rfl⟩
    · rw [hr]
      exact refundFor_ok hv hpaid
    · rw [Bool.eq_false_of_not_eq_true hr]
      exact ⟨_, rfl, (Aside.refl _).became a⟩
  obtain ⟨_, v, hclose, h⟩ := (exec_bind_ok ..).mp h
  obtain ⟨hallowed, _, _, hb₁⟩ := transition_ok hclose
  obtain ⟨_, w, hrestore, h⟩ := (exec_bind_ok ..).mp h
  simp only [exec_now_bind, exec_saveDispute_bind] at h
  obtain ⟨u, _, h⟩ := h
  obtain ⟨_, z, hz, h⟩ := (quiet_record ..).skip h
  obtain ⟨_, hz'⟩ := (quiet_forEach _ (fun _ => quiet_notify _)).last h
  rw [hb.here] at hallowed hb₁
  have hreturned : Became a (d.returned y refund actor s!"Dispute #{pk} resolved"
      s!"Restored after dispute #{pk}") s w := by
    unfold Dossier.returned
    rcases (exec_when ..).mp hrestore with ⟨hc, hmove⟩ | ⟨hc, _, rfl⟩
    · obtain ⟨_, _, htrans⟩ := exec_then_pure hmove
      obtain ⟨_, _, _, hb₂⟩ := transition_ok htrans
      rw [hb₁.here] at hb₂
      rw [if_pos hc]
      exact (hb.trans hb₁).trans hb₂
    · rw [if_neg hc]
      exact hb.trans hb₁
  have hsaved := became_amend a (.onDispute pk (.resolvedWith actor result (strip notes) refund
    u.clock)) w
  rw [hreturned.here] at hsaved
  have hcloses : .closed ∈ allowedTransitions (s.dossier a).row.status := by
    unfold Refunds at hd
    split at hd
    · obtain ⟨_, _, _, _, _, _, _, rfl⟩ := hd
      exact hallowed
    · rw [hd] at hallowed
      exact hallowed
  exact ⟨_, .resolve hfound (Bool.eq_true_of_not_eq_false hactive) hd hcloses,
    ((hreturned.trans hsaved).aside hz).aside hz'⟩

end Disputes

section Services
variable {view : View} {sees : Database → Database → Prop} {s s' : Database} {l : ServiceTx}
variable {r : Value}

theorem exec_map_ok {α : Type} {p : Prog α} {g : α → Value}
    (h : (g <$> p).Exec sees s (.ok r) s') : ∃ x, p.Exec sees s (.ok x) s' := by
  obtain ⟨x, _, hp⟩ := exec_then_pure (p := p) (g := g) h
  exact ⟨x, hp⟩

/-- The refinement: a committed transaction is a move of the auction it is about. -/
theorem service_moved (hv : ∀ a, view.Admits sees a s.clock) (h : l.prog.Exec sees s (.ok r) s') :
    match l.target with
    | some a => Moved view l.action a s s'
    | none => Aside s s' := by
  cases l <;> obtain ⟨_, h⟩ := exec_map_ok h
  case submitForReview | approve | autoSchedule | reject =>
    exact transition_moved h rfl (by decide)
  case activate =>
    exact activate_moved h
  case startNow =>
    exact startNow_moved (hv _) h
  case reschedule =>
    exact reschedule_moved h
  case pause =>
    exact pause_moved h
  case resume =>
    exact resume_moved (hv _) h
  case cancelAuction =>
    exact cancelAuction_moved h
  case endNow =>
    exact endNow_moved h
  case placeBid =>
    exact placeBid_moved (hv _) h
  case invalidateBid =>
    exact invalidateBid_moved h
  case closeAuction =>
    exact closeAuction_moved h
  case markPaid =>
    exact markPaid_moved (hv _) h
  case savePaymentFailed =>
    exact savePaymentFailed_moved h
  case recordPaymentFailed a pk actor reason _ _ =>
    have haside : Aside s s' :=
      ((quiet_record (some actor) .paymentFailed (.payment a pk) reason).exec h).2
    exact ⟨s.dossier a, .aside, haside.became a⟩
  case createNotification =>
    exact ((quiet_createNotification ..).exec h).2
  case deliver =>
    exact ((quiet_send _).exec h).2
  case saveVerification =>
    obtain ⟨_, _, _, _, _, rfl⟩ := exec_saveVerification.mp h
    exact aside_verify ..
  case saveAccountStatus =>
    obtain ⟨_, _, _, rfl⟩ := exec_saveAccountStatus.mp h
    exact ⟨rfl, rfl⟩
  case recordProfile =>
    exact ((quiet_record ..).exec h).2
  case openDispute =>
    exact openDispute_moved (hv _) h
  case takeForReview =>
    exact takeForReview_moved h
  case resolveDispute =>
    exact resolveDispute_moved (hv _) h

theorem service_clock (h : l.prog.Exec sees s (.ok r) s') : s'.clock = s.clock := by
  have hm := service_moved (fun a => any_admits sees a s.clock) h
  cases ht : l.target with
  | none =>
    rw [ht] at hm
    exact hm.clock
  | some a =>
    rw [ht] at hm
    obtain ⟨_, _, hb⟩ := hm
    exact hb.clock

/-- Seen from one auction: nothing happened, or the move that the transaction names. -/
theorem service_dossier (hv : ∀ a, view.Admits sees a s.clock)
    (h : l.prog.Exec sees s (.ok r) s') (a : AuctionId) :
    (l.target ≠ some a ∧ s'.dossier a = s.dossier a) ∨
    (l.target = some a ∧ Move view l.action (s.dossier a) (s'.dossier a)) := by
  have hm := service_moved hv h
  cases ht : l.target with
  | none =>
    rw [ht] at hm
    exact .inl ⟨nofun, congrFun hm.dossier a⟩
  | some b =>
    rw [ht] at hm
    obtain ⟨d, hmove, hb⟩ := hm
    by_cases hab : a = b
    · subst hab
      rw [← hb.here] at hmove
      exact .inr ⟨rfl, hmove⟩
    · exact .inl ⟨fun he => hab (Option.some.inj he).symm, hb.there a hab⟩

end Services

end MbararaAuction
