import MbararaAuction.Proofs.Locking

namespace MbararaAuction.Locking
open Transactions Queries

variable {H : List RowKey} {a : AuctionId} {pk : Nat}

section Statements

theorem lawful_now : Lawful H now := lawful_glance _

theorem lawful_record (actor : Option UserId) (action : AuditAction) (obj : ObjRef)
    (reason : String) : Lawful H (record actor action obj reason) :=
  lawful_update (respects_of_same (fun _ => rfl)) (.audit _) fun _ => rfl

theorem lawful_saveVerification (profile : Profile) (status : VerificationStatus) (actor : UserId) :
    Lawful H (saveVerification profile status actor) := by
  refine lawful_now.andThen fun t => lawful_now.andThen fun saved => lawful_acquire ?_
  refine Lawful.andThen (lawful_update (respects_of_same ?_) ?_ ?_) fun _ => lawful_pure _
  · intro s
    cases profile <;> rfl
  · cases profile with
    | seller u row => exact .seller u _
    | bidder u row => exact .bidder u _
  · intro s
    cases profile <;> rfl

theorem lawful_saveAccountStatus (u : UserId) (row : BidderProfile) (status : AccountStatus) :
    Lawful H (saveAccountStatus u row status) := by
  refine lawful_now.andThen fun saved => lawful_acquire ?_
  exact Lawful.andThen (lawful_update (respects_of_same fun _ => rfl) (.bidder u _)
    fun _ => rfl) fun _ => lawful_pure _

theorem lawful_createStatusLog (log : StatusLog) : Lawful H (createStatusLog a log) :=
  lawful_update (respects_amend_row (fun _ => rfl) (fun _ _ h => h) (fun _ _ => rfl)) (.amend a _)
    fun _ => rfl

theorem lawful_saveAuction (f : Auction → Auction) : Lawful H (saveAuction a f) := by
  refine lawful_acquire (lawful_update (respects_amend_row (fun _ => rfl) ?_ ?_) (.amend a _) fun _ => rfl)
  · intro d e h
    simp only [auctionView, Prod.mk.injEq] at h ⊢
    exact ⟨congrArg f h.1, h.2⟩
  · exact fun hn => absurd (List.mem_cons_self ..) hn

theorem lawful_bids (ha : .auction a ∈ H) : Lawful H (Tx.query fun s => (s.dossier a).bids) :=
  lawful_query fun _ _ h => congrArg (fun v => v.2.1) (view_of_auction ha h)

theorem lawful_nextPk {pks : Dossier → List Nat}
    (hpks : ∀ d e, auctionView d = auctionView e → pks d = pks e) (ha : .auction a ∈ H) :
    Lawful H (nextPk a pks) := by
  refine lawful_draw.andThen fun _ => ?_
  refine (lawful_query fun s t h => hpks _ _ (view_of_auction ha h)).andThen fun _ => ?_
  exact (lawful_refuse ..).andThen fun _ => lawful_pure _

theorem lawful_createBid (bidder : UserId) (amount : Money) (sequenceNo : Nat)
    (ha : .auction a ∈ H) : Lawful H (createBid a bidder amount sequenceNo) := by
  have hbids : ∀ d e, auctionView d = auctionView e → d.bids = e.bids :=
    fun d e h => congrArg (fun v => v.2.1) h
  refine (lawful_nextPk (fun d e h => by rw [hbids d e h]) ha).andThen fun _ => ?_
  refine lawful_now.andThen fun _ => ?_
  refine (lawful_query fun s t h => by rw [hbids _ _ (view_of_auction ha h)]).andThen fun _ => ?_
  refine (lawful_refuse ..).andThen fun _ => ?_
  refine (lawful_refuse ..).andThen fun _ => ?_
  refine (lawful_update ?_ (.amend a _) fun _ => rfl).andThen fun _ => lawful_pure _
  refine respects_amend_row (fun _ => rfl) ?_ (fun hn => absurd ha hn)
  intro d e h
  simp only [auctionView, Prod.mk.injEq, Dossier.addBid_bids] at h ⊢
  exact ⟨h.1, by rw [h.2.1], h.2.2⟩

theorem lawful_saveBid (f : Bid → Bid) (ha : .auction a ∈ H) : Lawful H (saveBid a pk f) := by
  refine lawful_acquire (lawful_update (respects_amend_row (fun _ => rfl) ?_ ?_) (.amend a _) fun _ => rfl)
  · intro d e h
    simp only [auctionView, Prod.mk.injEq, Dossier.onBid_bids] at h ⊢
    exact ⟨h.1, by rw [h.2.1], h.2.2⟩
  · exact fun hn => absurd (List.mem_cons_of_mem _ ha) hn

theorem lawful_createPayment (amount : Money) (ha : .auction a ∈ H) :
    Lawful H (createPayment a amount) := by
  have hpks : ∀ d e, auctionView d = auctionView e →
      d.payments.map Payment.pk = e.payments.map Payment.pk :=
    fun d e h => congrArg (fun v => v.2.2.1) h
  refine (lawful_nextPk hpks ha).andThen fun _ => ?_
  refine (lawful_query fun s t h => hpks _ _ (view_of_auction ha h)).andThen fun _ => ?_
  refine (lawful_refuse ..).andThen fun _ => ?_
  refine (lawful_update ?_ (.amend a _) fun _ => rfl).andThen fun _ => lawful_pure _
  refine respects_amend_row (fun _ => rfl) ?_ (fun hn => absurd ha hn)
  intro d e h
  simp only [auctionView, Prod.mk.injEq, Dossier.addPayment_payments, List.map_append] at h ⊢
  exact ⟨h.1, h.2.1, by rw [h.2.2.1], h.2.2.2⟩

/-- A payment is saved under no lock but its own: its key is all that others rely on. -/
theorem lawful_savePayment (f : Payment → Payment) (hf : ∀ p, (f p).pk = p.pk) :
    Lawful H (savePayment a pk f) := by
  refine lawful_acquire (lawful_update (respects_amend_row (fun _ => rfl) ?_ ?_) (.amend a _) fun _ => rfl)
  · intro d e h
    simp only [auctionView, Dossier.onPayment_payments, map_updateKey Payment.pk hf] at h ⊢
    exact h
  · intro _ d
    simp only [auctionView, Dossier.onPayment_payments, map_updateKey Payment.pk hf]
    rfl

theorem lawful_insertDispute (dispute : Dispute) (ha : .auction a ∈ H) :
    Lawful H (insertDispute a dispute) := by
  refine lawful_acquire (lawful_update (respects_amend ?_ ?_ ?_ ?_) (.amend a _) fun _ => rfl)
  · intro d e h
    simp only [auctionView, Prod.mk.injEq, Dossier.addDispute_disputes, List.map_append] at h ⊢
    exact ⟨h.1, h.2.1, h.2.2.1, by rw [h.2.2.2]⟩
  · exact fun hn => absurd (List.mem_cons_of_mem _ ha) hn
  · intro pk d e h
    simp only [disputeView, Dossier.addDispute_disputes, List.find?_append] at h ⊢
    rw [h]
  · intro pk hn d
    have hne : dispute.pk ≠ pk := by
      rintro rfl
      exact hn (List.mem_cons_self ..)
    simp [disputeView, hne]

theorem lawful_saveDispute (f : Dispute → Dispute) (hf : ∀ d, (f d).pk = d.pk) :
    Lawful H (saveDispute a pk f) := by
  refine lawful_acquire (lawful_update (respects_amend ?_ ?_ ?_ ?_) (.amend a _) fun _ => rfl)
  · intro d e h
    simp only [auctionView, Dossier.onDispute_disputes, map_updateKey Dispute.pk hf] at h ⊢
    exact h
  · intro _ d
    simp only [auctionView, Dossier.onDispute_disputes, map_updateKey Dispute.pk hf]
    rfl
  · intro pk' d e h
    simp only [disputeView, Dossier.onDispute_disputes, find_updateKey hf] at h ⊢
    rw [h]
  · intro pk' hn d
    simp only [disputeView, Dossier.onDispute_disputes, find_updateKey hf]
    have hne : pk' ≠ pk := by
      rintro rfl
      exact hn (List.mem_cons_self ..)
    cases hfind : d.disputes.find? (fun x => x.pk = pk') with
    | none => rfl
    | some x =>
      have hx : x.pk = pk' := (find_key hfind).2
      simp [hx, hne]

end Statements

section Notifications

theorem keeps_createNotification (user : UserId) (n : Notice) :
    Keeps H (createNotification user n) := by
  refine lawful_draw.keeps.andThen fun _ => Keeps.andThen ?_ fun _ => (lawful_pure _).keeps
  exact ⟨guarded_update (respects_of_same fun _ => rfl) (List.Subset.refl _)⟩

theorem writes_createNotification (user : UserId) (n : Notice) :
    (createNotification user n).Writes Write :=
  fun _ => ⟨.notification _, fun _ => trivial⟩

theorem keeps_send (pk : Nat) : Keeps H (Tx.send pk : Prog Unit) :=
  ⟨guarded_send (List.Subset.refl _)⟩

/-- The row that is inserted is the only new one. -/
theorem stored_insert {row : Notification} {pk : Nat} {s : Database}
    (h : Stored pk { s with notifications := s.notifications ++ [row] }) :
    Stored pk s ∨ pk = row.pk := by
  rw [Stored, List.map_append] at h
  exact (List.mem_append.mp h).imp_right List.mem_singleton.mp

/-- What is published is the key of the row just created. -/
theorem lawful_notify (n : Notice) : Lawful H (notify n) := by
  unfold notify
  cases n.recipient with
  | none => exact lawful_pure _
  | some user =>
    refine ⟨(keeps_createNotification user n).andThen keeps_send,
      (writes_createNotification user n).bind fun _ => trivial, fun own pk s => ?_,
      fun owed pk s m hleft => ?_⟩
    · refine ⟨.inr fun s => ?_, trivial⟩
      rw [Stored, List.map_append]
      exact List.mem_append_right _ (List.mem_singleton_self pk)
    · obtain ⟨howed | ⟨t, hnew, hold⟩, hne⟩ := hleft
      · exact howed
      · exact ((stored_insert hnew).elim hold hne).elim

theorem lawful_notifyOutbid (auction : Auction) (bid : Bid) (amount : String)
    (ha : .auction a ∈ H) : Lawful H (notifyOutbid a auction bid amount) := by
  refine (lawful_bids ha).andThen fun bids => ?_
  cases firstBy latestHighestFirst ((accepted bids).filter (fun b => b.pk ≠ bid.pk)) with
  | none => exact lawful_pure _
  | some b =>
    by_cases hb : b.bidder = bid.bidder
    · simpa only [hb, ↓reduceIte] using lawful_pure ()
    · simpa only [hb, ↓reduceIte] using lawful_notify _

theorem lawful_notifyAuctionUpdate (auction : Auction) (event : NotificationEvent)
    (title message : String) (ha : .auction a ∈ H) :
    Lawful H (notifyAuctionUpdate a auction event title message) :=
  (lawful_bids ha).andThen fun _ => lawful_forEach (fun _ => lawful_notify _) _

end Notifications

section Services

theorem lawful_recordTransition (toStatus : Status) (actor : Option UserId) (reason : String) :
    Lawful H (recordTransition a toStatus actor reason) := by
  unfold recordTransition
  split
  · exact lawful_record ..
  · exact lawful_pure _

theorem lawful_notifyTransition (auction : Auction) (toStatus : Status) (reason : String) :
    Lawful H (notifyTransition a auction toStatus reason) := by
  unfold notifyTransition
  split <;> first | exact lawful_notify _ | exact lawful_pure _

theorem lawful_transition (toStatus : Status) (actor : Option UserId) (reason : String) :
    Lawful H (transition a toStatus actor reason) := by
  refine lawful_lockedAuction fun locked => ?_
  refine (lawful_refuse ..).andThen fun _ => ?_
  refine (lawful_refuse ..).andThen fun _ => ?_
  refine (lawful_saveAuction _).andThen fun _ => ?_
  refine (lawful_createStatusLog _).andThen fun _ => ?_
  refine (lawful_recordTransition ..).andThen fun _ => ?_
  exact (lawful_notifyTransition ..).andThen fun _ => lawful_pure _

theorem lawful_createPendingPayment (auction : Auction) (ha : .auction a ∈ H) :
    Lawful H (createPendingPayment a auction) := by
  refine (lawful_query fun s t h => ?_).andThen fun existing => ?_
  · exact congrArg (fun v => v.2.2.1.head?) (view_of_auction ha h)
  split
  · exact lawful_pure _
  · refine (lawful_createPayment _ ha).andThen fun _ => ?_
    exact (lawful_record ..).andThen fun _ => lawful_pure _
  · exact lawful_pure _

theorem lawful_getAuction (payment : LoadedPayment) : Lawful H payment.getAuction := by
  unfold LoadedPayment.getAuction
  split
  · exact lawful_pure _
  · exact lawful_glance _

theorem lawful_markPaid (payment : LoadedPayment) (actor : UserId)
    (method reference notes : String) : Lawful H (markPaid payment actor method reference notes) := by
  refine (lawful_refuse ..).andThen fun _ => ?_
  refine lawful_now.andThen fun t => ?_
  refine (lawful_refuse ..).andThen fun _ => ?_
  refine (lawful_savePayment _ (paidWith_pk _ _ _ _ _)).andThen fun _ => ?_
  refine (lawful_record ..).andThen fun _ => ?_
  refine (lawful_getAuction _).andThen fun auction => ?_
  refine (lawful_when _ ((lawful_transition ..).andThen fun _ => lawful_pure _)).andThen fun _ => ?_
  refine Lawful.andThen ?_ fun _ => lawful_pure _
  exact (lawful_notify _).andThen fun _ => lawful_notify _

theorem lawful_placeBid (bidderUser : UserId) (amount : Number) :
    Lawful H (placeBid a bidderUser amount) := by
  have ha : RowKey.auction a ∈ .auction a :: H := List.mem_cons_self ..
  refine (lawful_ofExcept _).andThen fun _ => ?_
  refine lawful_lockedAuction fun locked => ?_
  refine lawful_now.andThen fun t => ?_
  refine (lawful_refuse ..).andThen fun _ => ?_
  refine (lawful_glance _).andThen fun _ => ?_
  refine (lawful_glance _).andThen fun _ => ?_
  refine (lawful_refuse ..).andThen fun _ => ?_
  refine (lawful_refuse ..).andThen fun _ => ?_
  refine (lawful_refuse ..).andThen fun _ => ?_
  refine (lawful_refuse ..).andThen fun _ => ?_
  refine (lawful_bids ha).andThen fun bids => ?_
  refine (lawful_createBid _ _ _ ha).andThen fun bid => ?_
  refine (lawful_when _ (lawful_record ..)).andThen fun _ => ?_
  refine (lawful_saveAuction _).andThen fun _ => ?_
  refine (lawful_record ..).andThen fun _ => ?_
  exact (lawful_notifyOutbid _ _ _ ha).andThen fun _ => lawful_pure _

theorem lawful_invalidateBid (actor : UserId) (reason : String) :
    Lawful H (invalidateBid a pk actor reason) := by
  have ha : RowKey.auction a ∈ .auction a :: H := List.mem_cons_self ..
  refine lawful_lockedAuction fun _ => ?_
  refine lawful_now.andThen fun t => ?_
  refine (lawful_saveBid _ ha).andThen fun _ => ?_
  refine (lawful_bids ha).andThen fun bids => ?_
  exact (lawful_saveAuction _).andThen fun _ => lawful_record ..

theorem lawful_closeAuction (actor : Option UserId) (reason : String) :
    Lawful H (closeAuction a actor reason) := by
  have ha : RowKey.auction a ∈ .auction a :: H := List.mem_cons_self ..
  refine lawful_lockedAuction fun locked => ?_
  refine (lawful_refuse ..).andThen fun _ => ?_
  refine (lawful_bids ha).andThen fun bids => ?_
  refine (lawful_saveAuction _).andThen fun _ => ?_
  refine (lawful_transition ..).andThen fun closed => ?_
  split
  · refine (lawful_record ..).andThen fun _ => ?_
    refine (lawful_notify _).andThen fun _ => ?_
    exact (lawful_createPendingPayment _ ha).andThen fun _ => lawful_pure _
  · exact (lawful_notify _).andThen fun _ => lawful_pure _

theorem lawful_startNow (actor : UserId) : Lawful H (startNow a actor) := by
  refine lawful_lockedAuction fun locked => ?_
  refine (lawful_refuse ..).andThen fun _ => ?_
  refine lawful_now.andThen fun t => ?_
  refine (lawful_refuse ..).andThen fun _ => ?_
  refine (lawful_when _ ((lawful_saveAuction _).andThen fun _ => lawful_record ..)).andThen
    fun _ => ?_
  exact lawful_transition ..

theorem lawful_reschedule (actor : UserId) (reason : String) (startTime endTime : Option Time) :
    Lawful H (reschedule a actor reason startTime endTime) := by
  refine (lawful_ofExcept _).andThen fun reason => ?_
  refine lawful_lockedAuction fun locked => ?_
  refine lawful_now.andThen fun t => ?_
  refine (lawful_refuse ..).andThen fun _ => ?_
  refine (lawful_refuse ..).andThen fun _ => ?_
  refine (lawful_refuse ..).andThen fun _ => ?_
  refine (lawful_refuse ..).andThen fun _ => ?_
  refine (lawful_refuse ..).andThen fun _ => ?_
  refine (lawful_refuse ..).andThen fun _ => ?_
  refine (lawful_refuse ..).andThen fun _ => ?_
  refine (lawful_saveAuction _).andThen fun _ => ?_
  refine (lawful_record ..).andThen fun _ => ?_
  exact (lawful_notifyAuctionUpdate _ _ _ _ (List.mem_cons_self ..)).andThen fun _ =>
    lawful_pure _

theorem lawful_pause (actor : UserId) (reason : String) : Lawful H (pause a actor reason) := by
  refine (lawful_ofExcept _).andThen fun reason => ?_
  refine lawful_lockedAuction fun locked => ?_
  refine (lawful_transition ..).andThen fun paused => ?_
  refine (lawful_record ..).andThen fun _ => ?_
  exact (lawful_notifyAuctionUpdate _ _ _ _ (List.mem_cons_self ..)).andThen fun _ =>
    lawful_pure _

theorem lawful_resume (actor : UserId) : Lawful H (resume a actor) := by
  refine lawful_lockedAuction fun locked => ?_
  refine (lawful_refuse ..).andThen fun _ => ?_
  refine lawful_now.andThen fun t => ?_
  refine (lawful_refuse ..).andThen fun _ => ?_
  refine (lawful_transition ..).andThen fun live => ?_
  refine (lawful_record ..).andThen fun _ => ?_
  exact (lawful_notifyAuctionUpdate _ _ _ _ (List.mem_cons_self ..)).andThen fun _ =>
    lawful_pure _

theorem lawful_cancelAuction (actor : UserId) (reason : String) :
    Lawful H (cancelAuction a actor reason) := by
  refine (lawful_ofExcept _).andThen fun reason => ?_
  refine lawful_lockedAuction fun locked => ?_
  refine (lawful_refuse ..).andThen fun _ => ?_
  refine (lawful_transition ..).andThen fun cancelled => ?_
  exact (lawful_notifyAuctionUpdate _ _ _ _ (List.mem_cons_self ..)).andThen fun _ =>
    lawful_pure _

theorem lawful_endNow (actor : UserId) (reason : String) : Lawful H (endNow a actor reason) := by
  refine (lawful_ofExcept _).andThen fun reason => ?_
  refine lawful_lockedAuction fun locked => ?_
  exact (lawful_refuse ..).andThen fun _ => lawful_closeAuction ..

theorem lawful_createDispute (raisedBy : UserId) (category : Category) (description : String)
    (before : Status) (ha : .auction a ∈ H) :
    Lawful H (createDispute a raisedBy category description before) := by
  refine (lawful_nextPk (fun d e h => congrArg (fun v => v.2.2.2) h) ha).andThen fun pk => ?_
  refine (lawful_glance _).andThen fun clash => ?_
  refine (lawful_refuse ..).andThen fun _ => ?_
  exact (lawful_insertDispute _ ha).andThen fun _ => lawful_pure _

theorem lawful_openDispute (raisedBy : UserId) (category description : String) :
    Lawful H (openDispute a raisedBy category description) := by
  have ha : RowKey.auction a ∈ .auction a :: H := List.mem_cons_self ..
  refine (lawful_refuse ..).andThen fun _ => ?_
  refine (lawful_require ..).andThen fun category => ?_
  refine lawful_lockedAuction fun auction => ?_
  refine (lawful_refuse ..).andThen fun _ => ?_
  refine (lawful_bids ha).andThen fun bids => ?_
  refine (lawful_refuse ..).andThen fun _ => ?_
  refine (lawful_glance _).andThen fun active => ?_
  refine (lawful_refuse ..).andThen fun _ => ?_
  refine (lawful_createDispute _ _ _ _ ha).andThen fun dispute => ?_
  refine (lawful_transition ..).andThen fun _ => ?_
  refine (lawful_record ..).andThen fun _ => ?_
  refine (lawful_glance _).andThen fun staff => ?_
  exact (lawful_forEach (fun _ => lawful_notify _) _).andThen fun _ => lawful_pure _

theorem lawful_takeForReview (actor : UserId) : Lawful H (takeForReview a pk actor) := by
  refine lawful_lockedDispute fun dispute => ?_
  refine (lawful_refuse ..).andThen fun _ => ?_
  exact (lawful_saveDispute _ (takenBy_pk _)).andThen fun _ => lawful_pure _

theorem lawful_refundFor (actor : UserId) (notes : String) :
    Lawful H (refundFor a pk actor notes) := by
  refine (lawful_glance _).andThen fun found => ?_
  refine (lawful_require ..).andThen fun payment => ?_
  refine (lawful_refuse ..).andThen fun _ => ?_
  refine (lawful_refuse ..).andThen fun _ => ?_
  refine (lawful_refuse ..).andThen fun _ => ?_
  exact (lawful_savePayment _ (refundedWith_pk _ _ _)).andThen fun _ => lawful_record ..

theorem lawful_resolveDispute (actor : UserId) (outcome notes : String) (refund : Bool) :
    Lawful H (resolveDispute a pk actor outcome notes refund) := by
  refine (lawful_require ..).andThen fun outcome => ?_
  refine (lawful_refuse ..).andThen fun _ => ?_
  refine lawful_lockedDispute fun dispute => ?_
  refine (lawful_refuse ..).andThen fun _ => ?_
  refine (lawful_glance _).andThen fun auction => ?_
  refine (lawful_when _ (lawful_refundFor ..)).andThen fun _ => ?_
  refine (lawful_transition ..).andThen fun _ => ?_
  refine (lawful_when _ ((lawful_transition ..).andThen fun _ => lawful_pure _)).andThen fun _ => ?_
  refine lawful_now.andThen fun t => ?_
  refine (lawful_saveDispute _ (resolvedWith_pk _ _ _ _ _)).andThen fun _ => ?_
  refine (lawful_record ..).andThen fun _ => ?_
  exact (lawful_forEach (fun _ => lawful_notify _) _).andThen fun _ => lawful_pure _

/-- All transactions but the two halves of `notify` outside any transaction. -/
theorem lawful_prog (l : ServiceTx) (hc : ∀ user n, l ≠ .createNotification user n)
    (hl : ∀ pk, l ≠ .deliver pk) : Lawful H l.prog := by
  cases l with
  | submitForReview | approve | autoSchedule | reject | activate =>
    exact (lawful_transition ..).map _
  | startNow => exact (lawful_startNow _).map _
  | reschedule => exact (lawful_reschedule ..).map _
  | pause => exact (lawful_pause ..).map _
  | resume => exact (lawful_resume _).map _
  | cancelAuction => exact (lawful_cancelAuction ..).map _
  | endNow => exact (lawful_endNow ..).map _
  | placeBid => exact (lawful_placeBid ..).map _
  | invalidateBid => exact (lawful_invalidateBid ..).map _
  | closeAuction => exact (lawful_closeAuction ..).map _
  | markPaid => exact (lawful_markPaid ..).map _
  | savePaymentFailed => exact (lawful_savePayment _ (failedWith_pk _ _)).map _
  | recordPaymentFailed => exact (lawful_record ..).map _
  | createNotification user n => exact absurd rfl (hc user n)
  | deliver pk => exact absurd rfl (hl pk)
  | openDispute => exact (lawful_openDispute ..).map _
  | takeForReview => exact (lawful_takeForReview _).map _
  | resolveDispute => exact (lawful_resolveDispute ..).map _
  | saveVerification => exact (lawful_saveVerification ..).map _
  | saveAccountStatus => exact (lawful_saveAccountStatus ..).map _
  | recordProfile => exact (lawful_record ..).map _

theorem notifies_or_lawful (l : ServiceTx) : (∃ user n, l = .createNotification user n) ∨
    (∃ pk, l = .deliver pk) ∨ ∀ H, Lawful H l.prog := by
  by_cases hc : ∃ user n, l = .createNotification user n
  · exact .inl hc
  by_cases hl : ∃ pk, l = .deliver pk
  · exact .inr (.inl hl)
  push Not at hc hl
  exact .inr (.inr fun H => lawful_prog l hc hl)

theorem prog_writes (l : ServiceTx) : l.prog.Writes Write := by
  rcases notifies_or_lawful l with ⟨user, n, rfl⟩ | ⟨pk, rfl⟩ | h
  · exact (writes_createNotification user n).map _
  · trivial
  · exact (h []).writes

theorem keeps_prog (l : ServiceTx) : Keeps H l.prog := by
  rcases notifies_or_lawful l with ⟨user, n, rfl⟩ | ⟨pk, rfl⟩ | h
  · exact (keeps_createNotification user n).andThen fun _ => (lawful_pure _).keeps
  · exact (keeps_send pk).andThen fun _ => (lawful_pure _).keeps
  · exact (h H).keeps

end Services

/-- The services keep the locking discipline, and what happens without a call
touches no locked row. -/
theorem disciplined : Disciplined engine rowLocks where
  guarded l := (keeps_prog l).guarded.mono (fun _ _ _ => trivial)
  outside v s k := by
    have hsame : (engine.outside v s).dossier = s.dossier := by cases v <;> rfl
    cases k <;> simp [rowLocks, AgreeOnRow, hsame]

end MbararaAuction.Locking
