import MbararaAuction.Proofs.Amounts
import MbararaAuction.Transactions.Waiting

namespace MbararaAuction.Locking
open Transactions Queries

/-- The primary keys in use in the tables of one auction that ask for new ones. -/
def dossierKeys (d : Dossier) : List Nat :=
  d.bids.map Bid.pk ++ d.payments.map Payment.pk ++ d.disputes.map Dispute.pk

/-- A dispute is locked before its payment, and both before their auction; the bids of an
auction come after it. Only a dispute may be locked by a key that no row has. -/
def rowOrder : LockOrder RowKey Database where
  level
    | .profile _ | .dispute _ _ => 0
    | .payment _ _ => 1
    | .auction _ => 2
    | .bid _ _ => 3
  top := 4
  bounded k := by cases k <;> simp
  number
    | .dispute _ pk => some pk
    | .profile _ | .payment _ _ | .auction _ | .bid _ _ => none
  Used n s := ∃ a, n ∈ dossierKeys (s.dossier a)

/-- The error of a primary key that is given out twice. -/
def DistinctKeys (e : PyError) : Prop := e ≠ .integrityError "pkey"

abbrev InOrder {α : Type} (z z' : Known RowKey) (p : Prog α) : Prop :=
  Orders rowOrder DistinctKeys z z' p

/-- The auction `a` is locked. -/
structure Locked (a : AuctionId) (z : Known RowKey) : Prop where
  key : .auction a ∈ z.keys
  below : 3 ≤ z.below

variable {α β : Type} {z z' : Known RowKey} {a : AuctionId} {pk : Nat}

theorem locked_lock {z : Known RowKey} : Locked a (z.lock (.auction a) 2) where
  key := List.mem_cons_self ..
  below := by
    simp only [Known.lock]
    omega

theorem Locked.draw (h : Locked a z) (n : Nat) : Locked a (z.draw n) := ⟨h.key, h.below⟩

theorem implies_refl (z : Known RowKey) : z.Implies z :=
  ⟨Nat.le_refl _, List.Subset.refl _, List.Subset.refl _⟩

/-- More locks up to a level that is reached already. -/
theorem implies_lock {k : RowKey} {level : Nat} (h : level < z.below) : (z.lock k level).Implies z where
  below := by
    simp only [Known.lock]
    omega
  keys := List.subset_cons_self ..
  numbers := List.Subset.refl _

section Writes
variable {drawn : List Nat}

theorem fits_of_same {w : Database → Database} (h : ∀ s, (w s).dossier = s.dossier) :
    rowOrder.Fits drawn w := by
  apply LockOrder.Fits.of_same
  intro n s
  simp only [rowOrder, h s]

theorem fits_amend {f : Dossier → Dossier} (hkeeps : ∀ d, dossierKeys d ⊆ dossierKeys (f d))
    (hadds : ∀ d, ∀ n ∈ dossierKeys (f d), n ∈ dossierKeys d ∨ n ∈ drawn) :
    rowOrder.Fits drawn (fun s => s.amend a f) := by
  constructor
  · intro n s h
    obtain ⟨other, hn⟩ := h
    refine ⟨other, ?_⟩
    by_cases ho : other = a
    · subst ho
      rw [amend_self]
      exact hkeeps _ hn
    · rwa [amend_other _ _ _ ho]
  · intro n s h
    obtain ⟨other, hn⟩ := h
    by_cases ho : other = a
    · subst ho
      rw [amend_self] at hn
      rcases hadds _ n hn with hold | hnew
      · exact .inl ⟨other, hold⟩
      · exact .inr hnew
    · rw [amend_other _ _ _ ho] at hn
      exact .inl ⟨other, hn⟩

theorem fits_amend_same {f : Dossier → Dossier} (h : ∀ d, dossierKeys (f d) = dossierKeys d) :
    rowOrder.Fits drawn (fun s => s.amend a f) := by
  apply fits_amend
  · intro d
    rw [h]
    exact List.Subset.refl _
  · intro d n hn
    rw [h] at hn
    exact .inl hn

/-- A new row. -/
theorem fits_amend_new {f : Dossier → Dossier} (hpk : pk ∈ drawn)
    (h : ∀ d n, n ∈ dossierKeys (f d) ↔ n ∈ dossierKeys d ∨ n = pk) :
    rowOrder.Fits drawn (fun s => s.amend a f) := by
  apply fits_amend
  · exact fun d n hn => (h d n).mpr (.inl hn)
  · intro d n hn
    rcases (h d n).mp hn with hold | rfl
    · exact .inl hold
    · exact .inr hpk

end Writes

section Statements

theorem order_now : InOrder z z now := orders_glance _

theorem order_record (actor : Option UserId) (action : AuditAction) (obj : ObjRef) (reason : String) :
    InOrder z z (record actor action obj reason) :=
  orders_update (fits_of_same fun _ => rfl)

theorem order_lockedAuction {f : Auction → Prog β} (ha : Locked a z ∨ z.below ≤ 2)
    (hf : ∀ row, InOrder (z.lock (.auction a) 2) z' (f row)) : InOrder z z' (lockedAuction a >>= f) := by
  refine orders_acquire (o := rowOrder) (k := .auction a)
    (f := fun _ => Tx.query (fun s => (s.dossier a).row) >>= f) rfl ?_ ?_
  · exact ha.imp Locked.key id
  · exact (orders_query _).andThen hf

theorem order_saveAuction (ha : Locked a z) (f : Auction → Auction) :
    InOrder z z (saveAuction a f) := by
  refine orders_acquire (o := rowOrder) (k := .auction a) rfl (.inl ha.key) ?_
  exact Orders.implies (orders_update (fits_amend_same fun _ => rfl)) (implies_lock ha.below)

theorem order_createStatusLog (log : StatusLog) : InOrder z z (createStatusLog a log) :=
  orders_update (fits_amend_same fun _ => rfl)

/-- A new key is a number just drawn, so it is in use nowhere. -/
theorem order_nextPk {pks : Dossier → List Nat} (hpks : ∀ d, pks d ⊆ dossierKeys d)
    {f : Nat → Prog β} (hf : ∀ n, InOrder (z.draw n) z' (f n)) : InOrder z z' (nextPk a pks >>= f) :=
  orders_number (o := rowOrder) (fun _ _ hn => ⟨a, hpks _ hn⟩) hf

theorem implies_draw {n : Nat} : (z.draw n).Implies z where
  below := Nat.le_refl _
  keys := List.Subset.refl _
  numbers := List.subset_cons_self ..

theorem order_createBid (bidder : UserId) (amount : Money) (sequenceNo : Nat) :
    InOrder z z (createBid a bidder amount sequenceNo) := by
  have hkeys : ∀ d : Dossier, d.bids.map Bid.pk ⊆ dossierKeys d := fun d n hn =>
    List.mem_append_left _ (List.mem_append_left _ hn)
  refine order_nextPk hkeys fun n => ?_
  refine order_now.andThen fun t => ?_
  refine (orders_query _).andThen fun taken => ?_
  refine (orders_refuse _ (by simp [DistinctKeys])).andThen fun _ => ?_
  refine (orders_refuse _ (by simp [DistinctKeys])).andThen fun _ => ?_
  refine Orders.andThen (orders_update ?_) fun _ => Orders.implies (orders_pure _) implies_draw
  refine fits_amend_new (List.mem_cons_self ..) ?_
  intro d m
  simp only [dossierKeys, Dossier.addBid, List.map_append, List.mem_append, List.map_cons,
    List.map_nil, List.mem_singleton]
  tauto

theorem order_saveBid (hz : z.below ≤ 3) (f : Bid → Bid) (hpk : ∀ x, (f x).pk = x.pk) :
    InOrder z (z.lock (.bid a pk) 3) (saveBid a pk f) := by
  refine orders_acquire (o := rowOrder) (k := .bid a pk) rfl (.inr hz) (orders_update ?_)
  refine fits_amend_same fun d => ?_
  simp only [dossierKeys, Dossier.onBid, map_updateKey Bid.pk hpk]

theorem order_createPayment (amount : Money) : InOrder z z (createPayment a amount) := by
  have hkeys : ∀ d : Dossier, d.payments.map Payment.pk ⊆ dossierKeys d := fun d n hn =>
    List.mem_append_left _ (List.mem_append_right _ hn)
  refine order_nextPk hkeys fun n => ?_
  refine (orders_query _).andThen fun taken => ?_
  refine (orders_refuse _ (by simp [DistinctKeys])).andThen fun _ => ?_
  refine Orders.andThen (orders_update ?_) fun _ => Orders.implies (orders_pure _) implies_draw
  refine fits_amend_new (List.mem_cons_self ..) ?_
  intro d m
  simp only [dossierKeys, Dossier.addPayment, List.map_append, List.mem_append, List.map_cons,
    List.map_nil, List.mem_singleton, Payment.due]
  tauto

/-- A payment is locked before its auction. -/
theorem order_savePayment (hz : z.below ≤ 1) (f : Payment → Payment) (hpk : ∀ x, (f x).pk = x.pk) :
    InOrder z (z.lock (.payment a pk) 1) (savePayment a pk f) := by
  refine orders_acquire (o := rowOrder) (k := .payment a pk) rfl (.inr hz) (orders_update ?_)
  refine fits_amend_same fun d => ?_
  simp only [dossierKeys, Dossier.onPayment, map_updateKey Payment.pk hpk]

/-- A new dispute is locked under its auction: nobody else waits with its lock in hand. -/
theorem order_insertDispute (ha : Locked a z) (dispute : Dispute) (hpk : dispute.pk ∈ z.numbers) :
    InOrder z z (insertDispute a dispute) := by
  refine orders_own (o := rowOrder) (k := .dispute a dispute.pk) (.inr ⟨_, hpk, rfl⟩) ?_
  refine Orders.implies (orders_update (fits_amend_new hpk ?_)) (implies_lock ?_)
  · intro d m
    simp only [dossierKeys, Dossier.addDispute, List.map_append, List.mem_append, List.map_cons,
      List.map_nil, List.mem_singleton]
    tauto
  · exact Nat.lt_of_lt_of_le (Nat.zero_lt_succ 2) ha.below

/-- A dispute may be asked for that is not there. -/
theorem order_lockedDispute {f : Dispute → Prog β} (hz : z.below = 0)
    (hf : ∀ d, InOrder (z.lock (.dispute a pk) 0) z' (f d)) :
    InOrder z z' (lockedDispute a pk >>= f) := by
  refine orders_find (o := rowOrder) (n := pk) (k := .dispute a pk) (f := fun _ =>
    Tx.query (fun s => (s.dossier a).disputes.find? (fun x => x.pk = pk)) >>= fun found =>
      Tx.require found .doesNotExist >>= f) rfl (Nat.le_of_eq hz) ?_ ?_
  · intro s hs
    have hnone : (s.dossier a).disputes.find? (fun x => x.pk = pk) = none := by
      rw [List.find?_eq_none]
      intro x hx he
      simp only [decide_eq_true_eq] at he
      apply hs
      exact ⟨a, List.mem_append_right _ (he ▸ List.mem_map_of_mem hx)⟩
    exact ⟨.doesNotExist, by simp only [hnone]; rfl⟩
  · refine (orders_query _).andThen fun found => ?_
    exact (orders_require found (by simp [DistinctKeys])).andThen hf

theorem order_saveDispute (hd : .dispute a pk ∈ z.keys) (hz : 0 < z.below) (f : Dispute → Dispute)
    (hpk : ∀ x, (f x).pk = x.pk) : InOrder z z (saveDispute a pk f) := by
  refine orders_own (o := rowOrder) (k := .dispute a pk) (.inl hd) ?_
  refine Orders.implies (orders_update (fits_amend_same fun d => ?_)) (implies_lock hz)
  simp only [dossierKeys, Dossier.onDispute, map_updateKey Dispute.pk hpk]

theorem order_saveVerification (profile : Profile) (status : VerificationStatus) (actor : UserId) :
    InOrder .start (.lock (.profile profile.ref) 0 .start) (saveVerification profile status actor) := by
  refine order_now.andThen fun t => order_now.andThen fun saved => ?_
  refine orders_acquire (o := rowOrder) (k := .profile profile.ref) rfl (.inr (Nat.le_refl 0)) ?_
  refine Orders.andThen (orders_update (fits_of_same ?_)) fun _ => orders_pure _
  intro s
  cases profile <;> rfl

theorem order_saveAccountStatus (u : UserId) (row : BidderProfile) (status : AccountStatus) :
    InOrder .start (.lock (.profile (.bidder u)) 0 .start) (saveAccountStatus u row status) := by
  refine order_now.andThen fun saved => ?_
  refine orders_acquire (o := rowOrder) (k := .profile (.bidder u)) rfl (.inr (Nat.le_refl 0)) ?_
  exact Orders.andThen (orders_update (fits_of_same fun _ => rfl)) fun _ => orders_pure _

end Statements

section Notifications

theorem order_createNotification (user : UserId) (n : Notice) :
    InOrder z z (createNotification user n) := by
  refine orders_draw.andThen fun pk => ?_
  exact Orders.andThen (orders_update (fits_of_same fun _ => rfl)) fun _ => orders_pure _

theorem order_notify (n : Notice) : InOrder z z (notify n) := by
  unfold notify
  cases n.recipient with
  | none => exact orders_pure _
  | some user => exact (order_createNotification user n).andThen fun pk => orders_send pk

theorem order_notifyOutbid (auction : Auction) (bid : Bid) (amount : String) :
    InOrder z z (notifyOutbid a auction bid amount) := by
  refine (orders_query _).andThen fun bids => ?_
  cases firstBy latestHighestFirst ((accepted bids).filter (fun b => b.pk ≠ bid.pk)) with
  | none => exact orders_pure _
  | some previous =>
    by_cases hown : previous.bidder = bid.bidder
    · simpa only [hown, ↓reduceIte] using orders_pure ()
    · simpa only [hown, ↓reduceIte] using order_notify _

theorem order_notifyAuctionUpdate (auction : Auction) (event : NotificationEvent)
    (title message : String) : InOrder z z (notifyAuctionUpdate a auction event title message) :=
  (orders_query _).andThen fun _ => orders_forEach (fun _ => order_notify _) _

end Notifications

section Services

theorem order_recordTransition (toStatus : Status) (actor : Option UserId) (reason : String) :
    InOrder z z (recordTransition a toStatus actor reason) := by
  unfold recordTransition
  split
  · exact order_record ..
  · exact orders_pure _

theorem order_notifyTransition (auction : Auction) (toStatus : Status) (reason : String) :
    InOrder z z (notifyTransition a auction toStatus reason) := by
  unfold notifyTransition
  split <;> first | exact order_notify _ | exact orders_pure _

/-- A transition, where the auction is locked already or can be. -/
theorem order_transition (ha : Locked a z ∨ z.below ≤ 2) (toStatus : Status)
    (actor : Option UserId) (reason : String) :
    InOrder z (z.lock (.auction a) 2) (transition a toStatus actor reason) := by
  refine order_lockedAuction ha fun locked => ?_
  refine (orders_refuse _ (by simp [DistinctKeys])).andThen fun _ => ?_
  refine (orders_refuse _ (by simp [DistinctKeys])).andThen fun _ => ?_
  refine (order_saveAuction locked_lock _).andThen fun _ => ?_
  refine (order_createStatusLog _).andThen fun _ => ?_
  refine (order_recordTransition ..).andThen fun _ => ?_
  exact (order_notifyTransition ..).andThen fun _ => orders_pure _

theorem order_transition_again (ha : Locked a z) (toStatus : Status) (actor : Option UserId)
    (reason : String) : InOrder z z (transition a toStatus actor reason) :=
  (order_transition (.inl ha) ..).implies (implies_lock ha.below)

theorem order_createPendingPayment (auction : Auction) :
    InOrder z z (createPendingPayment a auction) := by
  refine (orders_query _).andThen fun existing => ?_
  split
  · exact orders_pure _
  · refine (order_createPayment _).andThen fun payment => ?_
    exact (order_record ..).andThen fun _ => orders_pure _
  · exact orders_pure _

/-- Where a transaction stands that has locked the auction `a` and nothing before it. -/
abbrev inAuction (a : AuctionId) : Known RowKey := .lock (.auction a) 2 .start

/-- The payment, then its auction. -/
theorem order_markPaid (payment : LoadedPayment) (actor : UserId) (method reference notes : String) :
    InOrder .start ⟨3, [], []⟩ (markPaid payment actor method reference notes) := by
  refine (orders_refuse _ (by simp [DistinctKeys])).andThen fun _ => ?_
  refine order_now.andThen fun t => ?_
  refine (orders_refuse _ (by simp [DistinctKeys])).andThen fun _ => ?_
  refine (order_savePayment (Nat.zero_le _) _ (paidWith_pk _ _ _ _ _)).andThen fun _ => ?_
  refine (order_record ..).andThen fun _ => ?_
  refine Orders.andThen (y := .lock (.payment payment.auction payment.row.pk) 1 .start) ?_
    fun auction => ?_
  · unfold LoadedPayment.getAuction
    split
    · exact orders_pure _
    · exact orders_glance _
  refine Orders.andThen (y := ⟨3, [], []⟩) (orders_when _ ?_ ?_) fun _ => ?_
  · exact ⟨by simp [Known.lock, Known.start], List.nil_subset _, List.nil_subset _⟩
  · refine (order_transition (.inr (Nat.le_refl 2)) ..).andThen fun _ => ?_
    exact (orders_pure _).implies ⟨by simp [Known.lock, Known.start], List.nil_subset _, List.nil_subset _⟩
  refine Orders.andThen ?_ fun _ => orders_pure _
  exact (order_notify _).andThen fun _ => order_notify _

theorem order_placeBid (bidderUser : UserId) (amount : Number) :
    InOrder .start (inAuction a) (placeBid a bidderUser amount) := by
  refine (orders_ofExcept fun e he => ?_).andThen fun _ => ?_
  · obtain ⟨message, _, rfl⟩ := validateAmount_error he 0
    simp [DistinctKeys]
  refine order_lockedAuction (.inr (Nat.zero_le _)) fun locked => ?_
  refine order_now.andThen fun t => ?_
  refine (orders_refuse _ (by simp [DistinctKeys])).andThen fun _ => ?_
  refine (orders_glance _).andThen fun _ => ?_
  refine (orders_glance _).andThen fun _ => ?_
  refine (orders_refuse _ (by simp [DistinctKeys])).andThen fun _ => ?_
  refine (orders_refuse _ (by simp [DistinctKeys])).andThen fun _ => ?_
  refine (orders_refuse _ (by simp [DistinctKeys])).andThen fun _ => ?_
  refine (orders_refuse _ (by simp [DistinctKeys])).andThen fun _ => ?_
  refine (orders_query _).andThen fun bids => ?_
  refine (order_createBid _ _ _).andThen fun bid => ?_
  refine (orders_when _ (implies_refl _) (order_record ..)).andThen fun _ => ?_
  refine (order_saveAuction locked_lock _).andThen fun _ => ?_
  refine (order_record ..).andThen fun _ => ?_
  exact (order_notifyOutbid _ _ _).andThen fun _ => orders_pure _

/-- The auction, then the bid, then the auction again. -/
theorem order_invalidateBid (actor : UserId) (reason : String) :
    InOrder .start (.lock (.bid a pk) 3 (inAuction a)) (invalidateBid a pk actor reason) := by
  refine order_lockedAuction (.inr (Nat.zero_le _)) fun _ => ?_
  refine order_now.andThen fun t => ?_
  refine (order_saveBid (z := inAuction a) (Nat.le_refl 3) (Bid.invalidatedWith actor reason t)
    fun _ => rfl).andThen fun _ => ?_
  refine (orders_query _).andThen fun bids => ?_
  refine (order_saveAuction ⟨?_, by simp [Known.lock, Known.start]⟩ _).andThen fun _ => order_record ..
  exact List.mem_cons_of_mem _ (List.mem_cons_self ..)

theorem order_closeAuction (ha : Locked a z ∨ z.below ≤ 2) (actor : Option UserId)
    (reason : String) : InOrder z (z.lock (.auction a) 2) (closeAuction a actor reason) := by
  refine order_lockedAuction ha fun locked => ?_
  refine (orders_refuse _ (by simp [DistinctKeys])).andThen fun _ => ?_
  refine (orders_query _).andThen fun bids => ?_
  refine (order_saveAuction locked_lock _).andThen fun _ => ?_
  refine (order_transition_again locked_lock ..).andThen fun closed => ?_
  split
  · refine (order_record ..).andThen fun _ => ?_
    refine (order_notify _).andThen fun _ => ?_
    exact (order_createPendingPayment _).andThen fun _ => orders_pure _
  · exact (order_notify _).andThen fun _ => orders_pure _

theorem order_startNow (actor : UserId) : InOrder .start (inAuction a) (startNow a actor) := by
  refine order_lockedAuction (.inr (Nat.zero_le _)) fun locked => ?_
  refine (orders_refuse _ (by simp [DistinctKeys])).andThen fun _ => ?_
  refine order_now.andThen fun t => ?_
  refine (orders_refuse _ (by simp [DistinctKeys])).andThen fun _ => ?_
  refine (orders_when _ (implies_refl _)
    ((order_saveAuction locked_lock _).andThen fun _ => order_record ..)).andThen fun _ => ?_
  exact order_transition_again locked_lock ..

theorem needReason_keys {reason : String} : ∀ e, needReason reason = .error e → DistinctKeys e := by
  intro e he
  unfold needReason at he
  split at he
  · cases he
    simp [DistinctKeys]
  · cases he

theorem order_reschedule (actor : UserId) (reason : String) (startTime endTime : Option Time) :
    InOrder .start (inAuction a) (reschedule a actor reason startTime endTime) := by
  refine (orders_ofExcept needReason_keys).andThen fun reason => ?_
  refine order_lockedAuction (.inr (Nat.zero_le _)) fun locked => ?_
  refine order_now.andThen fun t => ?_
  refine (orders_refuse _ (by simp [DistinctKeys])).andThen fun _ => ?_
  refine (orders_refuse _ (by simp [DistinctKeys])).andThen fun _ => ?_
  refine (orders_refuse _ (by simp [DistinctKeys])).andThen fun _ => ?_
  refine (orders_refuse _ (by simp [DistinctKeys])).andThen fun _ => ?_
  refine (orders_refuse _ (by simp [DistinctKeys])).andThen fun _ => ?_
  refine (orders_refuse _ (by simp [DistinctKeys])).andThen fun _ => ?_
  refine (orders_refuse _ (by simp [DistinctKeys])).andThen fun _ => ?_
  refine (order_saveAuction locked_lock _).andThen fun _ => ?_
  refine (order_record ..).andThen fun _ => ?_
  exact (order_notifyAuctionUpdate ..).andThen fun _ => orders_pure _

theorem order_pause (actor : UserId) (reason : String) :
    InOrder .start (inAuction a) (pause a actor reason) := by
  refine (orders_ofExcept needReason_keys).andThen fun reason => ?_
  refine order_lockedAuction (.inr (Nat.zero_le _)) fun locked => ?_
  refine (order_transition_again locked_lock ..).andThen fun paused => ?_
  refine (order_record ..).andThen fun _ => ?_
  exact (order_notifyAuctionUpdate ..).andThen fun _ => orders_pure _

theorem order_resume (actor : UserId) : InOrder .start (inAuction a) (resume a actor) := by
  refine order_lockedAuction (.inr (Nat.zero_le _)) fun locked => ?_
  refine (orders_refuse _ (by simp [DistinctKeys])).andThen fun _ => ?_
  refine order_now.andThen fun t => ?_
  refine (orders_refuse _ (by simp [DistinctKeys])).andThen fun _ => ?_
  refine (order_transition_again locked_lock ..).andThen fun live => ?_
  refine (order_record ..).andThen fun _ => ?_
  exact (order_notifyAuctionUpdate ..).andThen fun _ => orders_pure _

theorem order_cancelAuction (actor : UserId) (reason : String) :
    InOrder .start (inAuction a) (cancelAuction a actor reason) := by
  refine (orders_ofExcept needReason_keys).andThen fun reason => ?_
  refine order_lockedAuction (.inr (Nat.zero_le _)) fun locked => ?_
  refine (orders_refuse _ (by simp [DistinctKeys])).andThen fun _ => ?_
  refine (order_transition_again locked_lock ..).andThen fun cancelled => ?_
  exact (order_notifyAuctionUpdate ..).andThen fun _ => orders_pure _

theorem order_endNow (actor : UserId) (reason : String) :
    InOrder .start (inAuction a) (endNow a actor reason) := by
  refine (orders_ofExcept needReason_keys).andThen fun reason => ?_
  refine order_lockedAuction (.inr (Nat.zero_le _)) fun locked => ?_
  refine (orders_refuse _ (by simp [DistinctKeys])).andThen fun _ => ?_
  exact (order_closeAuction (.inl locked_lock) ..).implies (implies_lock (by simp [Known.lock, Known.start]))

theorem order_createDispute (ha : Locked a z) (raisedBy : UserId) (category : Category)
    (description : String) (before : Status) :
    InOrder z z (createDispute a raisedBy category description before) := by
  refine order_nextPk (fun d n hn => List.mem_append_right _ hn) fun pk => ?_
  refine (orders_glance _).andThen fun clash => ?_
  refine (orders_refuse _ (by simp [DistinctKeys])).andThen fun _ => ?_
  refine (order_insertDispute (ha.draw pk) _ (List.mem_cons_self ..)).andThen fun _ => ?_
  exact Orders.implies (orders_pure _) implies_draw

/-- The auction, and under it the row of the new dispute. -/
theorem order_openDispute (raisedBy : UserId) (category description : String) :
    InOrder .start (inAuction a) (openDispute a raisedBy category description) := by
  refine (orders_refuse _ (by simp [DistinctKeys])).andThen fun _ => ?_
  refine (orders_require _ (by simp [DistinctKeys])).andThen fun category => ?_
  refine order_lockedAuction (.inr (Nat.zero_le _)) fun auction => ?_
  refine (orders_refuse _ (by simp [DistinctKeys])).andThen fun _ => ?_
  refine (orders_query _).andThen fun bids => ?_
  refine (orders_refuse _ (by simp [DistinctKeys])).andThen fun _ => ?_
  refine (orders_glance _).andThen fun active => ?_
  refine (orders_refuse _ (by simp [DistinctKeys])).andThen fun _ => ?_
  refine (order_createDispute locked_lock _ _ _ _).andThen fun dispute => ?_
  refine (order_transition_again locked_lock ..).andThen fun _ => ?_
  refine (order_record ..).andThen fun _ => ?_
  refine (orders_glance _).andThen fun staff => ?_
  exact (orders_forEach (fun _ => order_notify _) _).andThen fun _ => orders_pure _

/-- Where a transaction stands that has locked the dispute `pk` and nothing before it. -/
abbrev inDispute (a : AuctionId) (pk : Nat) : Known RowKey := .lock (.dispute a pk) 0 .start

theorem order_takeForReview (actor : UserId) :
    InOrder .start (inDispute a pk) (takeForReview a pk actor) := by
  refine order_lockedDispute rfl fun dispute => ?_
  refine (orders_refuse _ (by simp [DistinctKeys])).andThen fun _ => ?_
  refine (order_saveDispute (List.mem_cons_self ..) (by simp [Known.lock, Known.start]) _ (takenBy_pk _)).andThen fun _ => ?_
  exact orders_pure _

theorem order_refundFor (actor : UserId) (notes : String) :
    InOrder (inDispute a pk) ⟨2, [.dispute a pk], []⟩ (refundFor a pk actor notes) := by
  refine (orders_glance _).andThen fun found => ?_
  refine (orders_require _ (by simp [DistinctKeys])).andThen fun payment => ?_
  refine (orders_refuse _ (by simp [DistinctKeys])).andThen fun _ => ?_
  refine (orders_refuse _ (by simp [DistinctKeys])).andThen fun _ => ?_
  refine (orders_refuse _ (by simp [DistinctKeys])).andThen fun _ => ?_
  refine (order_savePayment (by simp [Known.lock, Known.start]) _ (refundedWith_pk _ _ _)).andThen fun _ => ?_
  refine (order_record ..).implies ⟨by simp [Known.lock, Known.start], ?_, List.Subset.refl _⟩
  exact List.subset_cons_self ..

/-- The dispute, the payment that is refunded, the auction, and the dispute again. -/
theorem order_resolveDispute (actor : UserId) (outcome notes : String) (refund : Bool) :
    InOrder .start (.lock (.auction a) 2 ⟨2, [.dispute a pk], []⟩)
      (resolveDispute a pk actor outcome notes refund) := by
  refine (orders_require _ (by simp [DistinctKeys])).andThen fun outcome => ?_
  refine (orders_refuse _ (by simp [DistinctKeys])).andThen fun _ => ?_
  refine order_lockedDispute rfl fun dispute => ?_
  refine (orders_refuse _ (by simp [DistinctKeys])).andThen fun _ => ?_
  refine (orders_glance _).andThen fun auction => ?_
  refine (orders_when _ ?_ (order_refundFor _ _)).andThen fun _ => ?_
  · exact ⟨by simp [Known.lock, Known.start], List.Subset.refl _, List.Subset.refl _⟩
  refine (order_transition (.inr (Nat.le_refl 2)) ..).andThen fun _ => ?_
  refine (orders_when _ (implies_refl _) ((order_transition_again locked_lock ..).andThen
    fun _ => orders_pure _)).andThen fun _ => ?_
  refine order_now.andThen fun t => ?_
  refine (order_saveDispute ?_ (by simp [Known.lock]) _ (resolvedWith_pk _ _ _ _ _)).andThen fun _ => ?_
  · exact List.mem_cons_of_mem _ (List.mem_cons_self ..)
  refine (order_record ..).andThen fun _ => ?_
  exact (orders_forEach (fun _ => order_notify _) _).andThen fun _ => orders_pure _

/-- Every transaction of the services takes its locks in order. -/
theorem order_prog (l : ServiceTx) : ∃ z, InOrder .start z l.prog := by
  cases l with
  | submitForReview | approve | autoSchedule | reject | activate =>
    exact ⟨_, (order_transition (.inr (Nat.zero_le _)) ..).map _⟩
  | startNow => exact ⟨_, (order_startNow _).map _⟩
  | reschedule => exact ⟨_, (order_reschedule ..).map _⟩
  | pause => exact ⟨_, (order_pause ..).map _⟩
  | resume => exact ⟨_, (order_resume _).map _⟩
  | cancelAuction => exact ⟨_, (order_cancelAuction ..).map _⟩
  | endNow => exact ⟨_, (order_endNow ..).map _⟩
  | placeBid => exact ⟨_, (order_placeBid ..).map _⟩
  | invalidateBid => exact ⟨_, (order_invalidateBid ..).map _⟩
  | closeAuction => exact ⟨_, (order_closeAuction (.inr (Nat.zero_le _)) ..).map _⟩
  | markPaid => exact ⟨_, (order_markPaid ..).map _⟩
  | savePaymentFailed =>
    exact ⟨_, (order_savePayment (Nat.zero_le _) _ (failedWith_pk _ _)).map _⟩
  | recordPaymentFailed => exact ⟨_, (order_record ..).map _⟩
  | createNotification => exact ⟨_, (order_createNotification ..).map _⟩
  | deliver pk => exact ⟨_, (orders_send pk).map _⟩
  | openDispute => exact ⟨_, (order_openDispute ..).map _⟩
  | takeForReview => exact ⟨_, (order_takeForReview _).map _⟩
  | resolveDispute => exact ⟨_, (order_resolveDispute ..).map _⟩
  | saveVerification => exact ⟨_, (order_saveVerification ..).map _⟩
  | saveAccountStatus => exact ⟨_, (order_saveAccountStatus ..).map _⟩
  | recordProfile => exact ⟨_, (order_record ..).map _⟩

end Services

/-- The services take their locks in order, and give no primary key out twice. -/
theorem ordered_engine : OrderedSystem engine rowOrder DistinctKeys where
  orderly l := by
    obtain ⟨z, hz⟩ := order_prog l
    exact (hz.orderly _ known_start).mono fun _ _ _ => trivial
  outside v n s := by
    have hsame : (engine.outside v s).dossier = s.dossier := by cases v <;> rfl
    simp only [rowOrder, hsame]

end MbararaAuction.Locking
