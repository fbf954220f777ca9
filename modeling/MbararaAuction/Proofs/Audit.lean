import MbararaAuction.Model.Deeds
import MbararaAuction.Proofs.AllOrNothing

namespace MbararaAuction
open Transactions Queries

seal Tx.Exec

/-- The status of a bid, a payment, a dispute or a profile. -/
inductive ObjStatus where
  | bid (status : BidStatus)
  | payment (status : PaymentStatus)
  | dispute (status : DisputeStatus)
  | seller (verification : VerificationStatus)
  | bidder (verification : VerificationStatus) (account : AccountStatus)
deriving DecidableEq, Repr

/-- The status of the object that `o` names, if it exists and is one of these. -/
def Database.statusOf (s : Database) : ObjRef → Option ObjStatus
  | .auction _ => none
  | .bid a pk => (column Bid.pk Bid.status (s.dossier a).bids pk).map .bid
  | .payment a pk => (column Payment.pk Payment.status (s.dossier a).payments pk).map .payment
  | .dispute a pk => (column Dispute.pk Dispute.status (s.dossier a).disputes pk).map .dispute
  | .sellerProfile u => (s.sellerProfiles u).map fun p => .seller p.verificationStatus
  | .bidderProfile u =>
    (s.bidderProfiles u).map fun p => .bidder p.verificationStatus p.accountStatus

/-- Of what the tables hold about the auction `a`, only the statuses of `objs` differ. -/
structure Alters (a : AuctionId) (objs : List ObjRef) (d d' : Dossier) : Prop where
  bids : ∀ pk, column Bid.pk Bid.status d'.bids pk ≠ column Bid.pk Bid.status d.bids pk →
    .bid a pk ∈ objs
  payments : ∀ pk, column Payment.pk Payment.status d'.payments pk ≠
    column Payment.pk Payment.status d.payments pk → .payment a pk ∈ objs
  disputes : ∀ pk, column Dispute.pk Dispute.status d'.disputes pk ≠
    column Dispute.pk Dispute.status d.disputes pk → .dispute a pk ∈ objs

section Alters
variable {a : AuctionId} {pk : Nat} {objs more : List ObjRef} {d d' d'' : Dossier}

/-- What differs at the end has changed on the way. -/
theorem changed_either {α : Type} {x y z : α} (h : z ≠ x) : y ≠ x ∨ z ≠ y := by
  by_cases hy : y = x
  · exact .inr (hy ▸ h)
  · exact .inl hy

theorem Alters.trans (h : Alters a objs d d') (h' : Alters a more d' d'') :
    Alters a (objs ++ more) d d'' := by
  constructor
  · intro pk hpk
    rcases changed_either hpk with hfirst | hlast
    · exact List.mem_append_left _ (h.bids pk hfirst)
    · exact List.mem_append_right _ (h'.bids pk hlast)
  · intro pk hpk
    rcases changed_either hpk with hfirst | hlast
    · exact List.mem_append_left _ (h.payments pk hfirst)
    · exact List.mem_append_right _ (h'.payments pk hlast)
  · intro pk hpk
    rcases changed_either hpk with hfirst | hlast
    · exact List.mem_append_left _ (h.disputes pk hfirst)
    · exact List.mem_append_right _ (h'.disputes pk hlast)

/-- The auction row and its log have no part in it. -/
theorem alters_row (hb : d'.bids = d.bids) (hp : d'.payments = d.payments)
    (hd : d'.disputes = d.disputes) : Alters a [] d d' :=
  ⟨fun _ h => absurd (by rw [hb]) h, fun _ h => absurd (by rw [hp]) h,
    fun _ h => absurd (by rw [hd]) h⟩

theorem Alters.row (h : Alters a objs d d') (hb : d''.bids = d'.bids)
    (hp : d''.payments = d'.payments) (hd : d''.disputes = d'.disputes) : Alters a objs d d'' := by
  have hall := h.trans (alters_row hb hp hd)
  rwa [List.append_nil] at hall

theorem alters_addBid (d : Dossier) (bid : Bid) : Alters a [.bid a bid.pk] d (d.addBid bid) := by
  refine ⟨fun pk h => ?_, fun _ h => absurd rfl h, fun _ h => absurd rfl h⟩
  have hmem := column_append h
  simp only [List.map_cons, List.map_nil, List.mem_singleton] at hmem
  rw [hmem]
  exact List.mem_singleton_self _

theorem alters_onBid (d : Dossier) {f : Bid → Bid} (hf : ∀ b, (f b).pk = b.pk) :
    Alters a [.bid a pk] d (d.onBid pk f) := by
  refine ⟨fun k h => ?_, fun _ h => absurd rfl h, fun _ h => absurd rfl h⟩
  rw [column_update hf h]
  exact List.mem_singleton_self _

theorem alters_addPayments (d : Dossier) (owed : List Payment) :
    Alters a ((dueAudit a owed).map AuditLog.obj) d (d.addPayments owed) := by
  refine ⟨fun _ h => absurd rfl h, fun pk h => ?_, fun _ h => absurd rfl h⟩
  obtain ⟨p, hp, rfl⟩ := List.mem_map.mp (column_append h)
  simp only [dueAudit, List.map_map]
  exact List.mem_map_of_mem hp

theorem alters_onPayment (d : Dossier) {f : Payment → Payment} (hf : ∀ p, (f p).pk = p.pk) :
    Alters a [.payment a pk] d (d.onPayment pk f) := by
  refine ⟨fun _ h => absurd rfl h, fun k h => ?_, fun _ h => absurd rfl h⟩
  rw [column_update hf h]
  exact List.mem_singleton_self _

theorem alters_addDispute (d : Dossier) (x : Dispute) :
    Alters a [.dispute a x.pk] d (d.addDispute x) := by
  refine ⟨fun _ h => absurd rfl h, fun _ h => absurd rfl h, fun pk h => ?_⟩
  have hmem := column_append h
  simp only [List.map_cons, List.map_nil, List.mem_singleton] at hmem
  rw [hmem]
  exact List.mem_singleton_self _

theorem alters_onDispute (d : Dossier) {f : Dispute → Dispute} (hf : ∀ x, (f x).pk = x.pk) :
    Alters a [.dispute a pk] d (d.onDispute pk f) := by
  refine ⟨fun _ h => absurd rfl h, fun _ h => absurd rfl h, fun k h => ?_⟩
  rw [column_update hf h]
  exact List.mem_singleton_self _

end Alters

/-- Every object whose status differs is named by an audit row of its own, and every
dispute among them by a notification. -/
structure Documented (s s' : Database) : Prop where
  audited : ∃ rows, s'.audit = s.audit ++ rows ∧
    ∀ o, s'.statusOf o ≠ s.statusOf o → ∃ row ∈ rows, row.obj = o
  announced : ∃ notes, s'.notifications = s.notifications ++ notes ∧
    ∀ a pk, s'.statusOf (.dispute a pk) ≠ s.statusOf (.dispute a pk) →
      ∃ n ∈ notes, n.obj = .dispute a pk

section Documented
variable {s s' : Database} {a : AuctionId} {d : Dossier} {objs : List ObjRef} {o : ObjRef}
variable {rows : List AuditLog} {sent : List Sent}

theorem changed_map {α β : Type} {x y : Option α} {f : α → β} (h : x.map f ≠ y.map f) : x ≠ y := by
  rintro rfl
  exact h rfl

/-- What is written about one auction changes the statuses that its dossier shows. -/
theorem Writes.statusOf (h : Writes a d rows sent s s') (halters : Alters a objs (s.dossier a) d)
    (ho : s'.statusOf o ≠ s.statusOf o) : o ∈ objs := by
  have hother : ∀ b, b ≠ a → s'.dossier b = s.dossier b := h.became.there
  cases o with
  | auction b => exact absurd rfl ho
  | bid b pk =>
    by_cases hb : b = a
    · subst hb
      have hcolumn := changed_map ho
      rw [h.became.here] at hcolumn
      exact halters.bids pk hcolumn
    · exact absurd (by simp only [Database.statusOf, hother b hb]) ho
  | payment b pk =>
    by_cases hb : b = a
    · subst hb
      have hcolumn := changed_map ho
      rw [h.became.here] at hcolumn
      exact halters.payments pk hcolumn
    · exact absurd (by simp only [Database.statusOf, hother b hb]) ho
  | dispute b pk =>
    by_cases hb : b = a
    · subst hb
      have hcolumn := changed_map ho
      rw [h.became.here] at hcolumn
      exact halters.disputes pk hcolumn
    · exact absurd (by simp only [Database.statusOf, hother b hb]) ho
  | sellerProfile u => exact absurd (by simp only [Database.statusOf, h.profiles.1]) ho
  | bidderProfile u => exact absurd (by simp only [Database.statusOf, h.profiles.2]) ho

theorem Writes.documented (h : Writes a d rows sent s s') (halters : Alters a objs (s.dossier a) d)
    (hrows : ∀ o ∈ objs, o ∈ rows.map AuditLog.obj)
    (hsent : ∀ pk, .dispute a pk ∈ objs → .dispute a pk ∈ sent.map Sent.obj)
    (hhere : ∀ b pk, .dispute b pk ∈ objs → b = a) : Documented s s' := by
  obtain ⟨notes, hnotes, hmap⟩ := h.notified
  refine ⟨⟨rows, h.audited, fun o ho => ?_⟩, notes, hnotes, fun b pk ho => ?_⟩
  · obtain ⟨row, hrow, hobj⟩ := List.mem_map.mp (hrows o (h.statusOf halters ho))
    exact ⟨row, hrow, hobj⟩
  · have hobj := h.statusOf halters ho
    obtain rfl := hhere b pk hobj
    have hmem := hsent pk hobj
    rw [← hmap, List.map_map] at hmem
    obtain ⟨n, hn, hobj⟩ := List.mem_map.mp hmem
    exact ⟨n, hn, hobj⟩

/-- Where no dispute is among them, nobody has to be told. -/
theorem Writes.silent (h : Writes a d rows sent s s') (halters : Alters a objs (s.dossier a) d)
    (hrows : ∀ o ∈ objs, o ∈ rows.map AuditLog.obj) (hno : ∀ b pk, .dispute b pk ∉ objs) :
    Documented s s' :=
  h.documented halters hrows (fun pk hpk => absurd hpk (hno a pk))
    fun b pk hpk => absurd hpk (hno b pk)

/-- What is written about the auction row alone. -/
theorem Writes.rowOnly (h : Writes a d rows sent s s') (hb : d.bids = (s.dossier a).bids)
    (hp : d.payments = (s.dossier a).payments) (hd : d.disputes = (s.dossier a).disputes) :
    Documented s s' :=
  h.silent (alters_row hb hp hd) (fun _ ho => by cases ho) fun _ _ ho => by cases ho

theorem Documented.refl (s : Database) : Documented s s :=
  ⟨⟨[], (List.append_nil _).symm, fun _ h => absurd rfl h⟩, [], (List.append_nil _).symm,
    fun _ _ h => absurd rfl h⟩

theorem statusOf_congr {s t : Database} (hd : t.dossier = s.dossier)
    (hs : t.sellerProfiles = s.sellerProfiles) (hb : t.bidderProfiles = s.bidderProfiles)
    (o : ObjRef) : t.statusOf o = s.statusOf o := by
  cases o <;> simp only [Database.statusOf, hd, hs, hb]

/-- What was saved and recorded, outside disputes. -/
theorem Recorded.documented {saved : Database} {row : AuditLog}
    {told : List (UserId × NotificationEvent × ObjRef)} (h : Recorded saved row told s s')
    (hobj : ∀ o, saved.statusOf o ≠ s.statusOf o → row.obj = o)
    (hquiet : ∀ a pk, saved.statusOf (.dispute a pk) = s.statusOf (.dispute a pk)) :
    Documented s s' := by
  obtain ⟨hdossier, hsellers, hbidders⟩ := h.changed
  obtain ⟨notes, hnotes, _⟩ := h.notified
  have hsame := statusOf_congr hdossier hsellers hbidders
  refine ⟨⟨[row], h.audited, fun o ho => ?_⟩, notes, hnotes, fun a pk ho => ?_⟩
  · rw [hsame] at ho
    exact ⟨row, List.mem_singleton_self _, hobj o ho⟩
  · rw [hsame] at ho
    exact absurd (hquiet a pk) ho

theorem statusOf_verify {p : ProfileRef} {status : VerificationStatus} {actor : UserId}
    {t saved : Time} (h : (s.verify p status actor t saved).statusOf o ≠ s.statusOf o) :
    p.obj = o := by
  by_contra hne
  apply h
  cases p with
  | seller u =>
    cases o with
    | sellerProfile v =>
      have huv : v ≠ u := fun he => hne (by rw [he]; rfl)
      simp only [Database.statusOf, Database.verify, Database.onSeller, if_neg huv]
    | _ => rfl
  | bidder u =>
    cases o with
    | bidderProfile v =>
      have huv : v ≠ u := fun he => hne (by rw [he]; rfl)
      simp only [Database.statusOf, Database.verify, Database.onBidder, if_neg huv]
    | _ => rfl

theorem statusOf_onBidder {u : UserId} {f : BidderProfile → BidderProfile}
    (h : (s.onBidder u f).statusOf o ≠ s.statusOf o) : .bidderProfile u = o := by
  by_contra hne
  apply h
  cases o with
  | bidderProfile v =>
    have huv : v ≠ u := fun he => hne (by rw [he])
    simp only [Database.statusOf, Database.onBidder, if_neg huv]
  | _ => rfl

end Documented

/-- If the task returns, what it has done since `first` is documented. -/
abbrev Documents (first : Database) (t : ServiceTask) (s : Database) : Prop :=
  Returns (Documented first) t s

section Tasks
variable {first s : Database}

theorem markFailed_documents (payment : LoadedPayment) (actor : UserId) (reason : String) :
    Documents first (markFailedTask payment actor reason) first :=
  (markFailed_writes first payment actor reason).mono fun _ _ _ hwrites v hv =>
    (hwrites v hv).silent (alters_onPayment _ fun _ => rfl) (fun _ ho => ho) fun _ _ ho => by
      simp at ho

/-- What the functions on profiles leave is documented. -/
theorem Completes.documents {call : Call} {t : ServiceTask}
    (h : Completes call False first 0 t first)
    (heffect : ∀ s', call.Effect first s' → Documented first s') : Documents first t first :=
  h.mono fun _ out s' hended v hv => by
    subst hv
    exact heffect s' hended

theorem verifyProfile_documents (profile : Profile) (userSelected : Bool) (actor : UserId)
    (reason : String) :
    Documents first (verifyProfileTask profile userSelected actor reason) first := by
  have hends : Completes (.verifyProfile profile.ref userSelected actor reason) False first 0
      (verifyProfileTask profile userSelected actor reason) first :=
    applyVerification_completes rfl fun _ h => h
  exact hends.documents fun s' h => h.documented (fun _ ho => statusOf_verify ho) fun a pk => by
    by_contra hne
    exact absurd (statusOf_verify hne) (by cases profile <;> exact nofun)

theorem rejectProfile_documents (profile : Profile) (userSelected : Bool) (actor : UserId)
    (reason : String) :
    Documents first (rejectProfileTask profile userSelected actor reason) first := by
  unfold rejectProfileTask
  split
  · exact fun v hv => by cases hv
  have hends : Completes (.rejectProfile profile.ref userSelected actor reason) False first 0
      (applyVerificationTask profile userSelected .rejected actor reason) first :=
    applyVerification_completes rfl fun _ h => h
  exact hends.documents fun s' h => h.documented (fun _ ho => statusOf_verify ho) fun a pk => by
    by_contra hne
    exact absurd (statusOf_verify hne) (by cases profile <;> exact nofun)

theorem suspendBidder_documents (u : UserId) (row : BidderProfile) (userSelected : Bool)
    (actor : UserId) (reason : String) :
    Documents first (suspendBidderTask u row userSelected actor reason) first := by
  unfold suspendBidderTask
  split
  · exact fun v hv => by cases hv
  have hends : Completes (.suspendBidder u userSelected actor reason) False first 0
      (.tx (.saveAccountStatus u row .suspended) (fun result => announceTask (.bidder u) userSelected
        .userSuspended actor reason (bidderSuspendedNotice u reason) result) .fail) first :=
    accountStatus_completes rfl fun _ h => h
  exact hends.documents fun s' h => h.documented (fun _ ho => statusOf_onBidder ho) fun _ _ => rfl

theorem reactivateBidder_documents (u : UserId) (row : BidderProfile) (userSelected : Bool)
    (actor : UserId) (reason : String) :
    Documents first (reactivateBidderTask u row userSelected actor reason) first := by
  have hends : Completes (.reactivateBidder u userSelected actor reason) False first 0
      (reactivateBidderTask u row userSelected actor reason) first :=
    accountStatus_completes rfl fun _ h => h
  exact hends.documents fun s' h => h.documented (fun _ ho => statusOf_onBidder ho) fun _ _ => rfl

end Tasks

/-- Somebody but the person who raises the dispute is concerned with it. -/
def Heard (s : Database) (auction : Auction) (raisedBy : UserId) : Prop :=
  ∃ u, u ≠ raisedBy ∧ (u ∈ staffUsers s ∨ otherParty auction raisedBy = some u)

/-- The call takes no dispute for review, and raises none that concerns nobody else. -/
def Deed.Traceable (s : Database) : Deed → Prop
  | .takeForReview _ _ _ => False
  | .openDispute a raisedBy _ _ => Heard s (s.dossier a).row raisedBy
  | _ => True

section Deeds
variable {w w' : World Database Nat} {deed : Deed} {v : Value} {a : AuctionId} {pk : Nat}

theorem mem_openingRecipients {s : Database} {auction : Auction} {raisedBy u : UserId} :
    u ∈ openingRecipients s auction raisedBy ↔
      u ≠ raisedBy ∧ (u ∈ staffUsers s ∨ otherParty auction raisedBy = some u) := by
  unfold openingRecipients withOther
  rw [List.mem_filter, decide_eq_true_iff, and_comm]
  cases otherParty auction raisedBy with
  | none => simp
  | some other => rw [mem_withKey, Option.some_inj, eq_comm (a := u)]

theorem atomic_map_ok {α : Type} {p : Prog α} {g : α → Value}
    (h : (g <$> p).atomic w = (.ok v, w')) : ∃ x, p.Exec Exact w.db (.ok x) w'.db :=
  exec_map_ok (exec_of_atomic h)

theorem run_map_ok {α : Type} {p : Prog α} {g : α → Value}
    (h : (g <$> p).run w = (.ok v, w')) : ∃ x, p.Exec Exact w.db (.ok x) w'.db :=
  exec_map_ok (exec_of_run h)

theorem transition_documented {s s' : Database} {toStatus : Status} {actor : Option UserId}
    {reason : String} {row : Auction}
    (h : (transition a toStatus actor reason).Exec Exact s (.ok row) s') : Documented s s' :=
  (transition_writes h).rowOnly rfl rfl rfl

theorem closeAuction_documented {s s' : Database} {actor : Option UserId} {reason : String}
    {row : Auction} (h : (closeAuction a actor reason).Exec Exact s (.ok row) s') :
    Documented s s' := by
  obtain ⟨owed, rows, hwrites⟩ := closeAuction_writes h
  have hrow : Alters a [] (s.dossier a) (((s.dossier a).onRow (.withSale (saleOf (s.dossier a).row
      (highestAccepted (s.dossier a).bids)))).entered .closed actor reason) :=
    alters_row rfl rfl rfl
  refine hwrites.silent (hrow.trans (alters_addPayments _ owed)) ?_ ?_
  · intro o ho
    rw [List.map_append]
    exact List.mem_append_right _ ho
  · intro b k ho
    simp [dueAudit] at ho

theorem resolved_alters (pk : Nat) {d : Dossier} {y : Dispute} {actor : UserId} {cause reason restored : String}
    {refund : Bool} {f : Dispute → Dispute} (hf : ∀ x, (f x).pk = x.pk) :
    Alters a ((refundAudit a actor cause refund d).map AuditLog.obj ++ [.dispute a pk]) d
      (((d.refundedBy actor cause refund).returned y refund actor reason restored).onDispute pk f) := by
  have hrefund : Alters a ((refundAudit a actor cause refund d).map AuditLog.obj) d
      (d.refundedBy actor cause refund) := by
    unfold Dossier.refundedBy refundAudit
    split
    · exact alters_onPayment d fun _ => rfl
    · exact alters_row rfl rfl rfl
  refine Alters.trans (hrefund.row ?_ ?_ ?_) (alters_onDispute _ hf)
  all_goals
    unfold Dossier.returned
    dsimp only
    split <;> rfl

theorem placeBid_documented {s s' : Database} {bidderUser : UserId} {amount : Number} {bid : Bid}
    (h : (placeBid a bidderUser amount).Exec Exact s (.ok bid) s') : Documented s s' := by
  obtain ⟨_, _, _, _, _, _, _, hwrites⟩ := placeBid_writes h
  refine hwrites.silent ((alters_addBid (s.dossier a) bid).row rfl rfl rfl) ?_ ?_
  · intro o ho
    rw [List.map_append]
    exact List.mem_append_right _ ho
  · intro b k ho
    simp at ho

theorem createPendingPayment_documented {s s' : Database} {auction : Auction} {r : Option Nat}
    (h : (createPendingPayment a auction).Exec Exact s (.ok r) s') : Documented s s' := by
  obtain ⟨owed, hwrites⟩ := createPendingPayment_writes h
  exact hwrites.silent (alters_addPayments _ owed) (fun _ ho => ho) fun b k ho => by
    simp [dueAudit] at ho

theorem markPaid_documented {s s' : Database} {payment : LoadedPayment} {actor : UserId}
    {method reference notes : String} {p : Payment}
    (h : (markPaid payment actor method reference notes).Exec Exact s (.ok p) s') :
    Documented s s' := by
  have hpaid : Alters payment.auction [.payment payment.auction payment.row.pk]
      (s.dossier payment.auction) ((s.dossier payment.auction).onPayment payment.row.pk
        (.paidWith actor method reference notes s.clock)) := alters_onPayment _ fun _ => rfl
  refine (markPaid_writes h).silent (hpaid.row ?_ ?_ ?_) (fun _ ho => ho) fun b k ho => by
    simp at ho
  all_goals
    dsimp only
    split <;> rfl

/-- A documented change of a dispute is among what was sent. -/
theorem Writes.heralds {s s' : Database} {d : Dossier} {rows : List AuditLog} {sent : List Sent}
    {b : AuctionId} (h : Writes a d rows sent s s') (hdocumented : Documented s s')
    (hnew : s'.statusOf (.dispute b pk) ≠ s.statusOf (.dispute b pk)) :
    ∃ x ∈ sent, x.obj = .dispute b pk := by
  obtain ⟨notes, hnotes, htold⟩ := hdocumented.announced
  obtain ⟨notes', hnotes', rfl⟩ := h.notified
  obtain rfl := List.append_cancel_left (hnotes.symm.trans hnotes')
  obtain ⟨n, hn, hobj⟩ := htold b pk hnew
  exact ⟨n.sent, List.mem_map_of_mem hn, hobj⟩

/-- A dispute that is opened is documented exactly when somebody hears of it. -/
theorem openDispute_documented {s s' : Database} {raisedBy : UserId} {category description : String}
    {x : Dispute} (h : (openDispute a raisedBy category description).Exec Exact s (.ok x) s') :
    Documented s s' ↔ Heard s (s.dossier a).row raisedBy := by
  obtain ⟨_, _, hfresh, _, reason, hwrites⟩ := openDispute_writes h
  constructor
  · intro hdocumented
    have hnew : s'.statusOf (.dispute a x.pk) ≠ s.statusOf (.dispute a x.pk) := by
      have hnone : (s.dossier a).disputes.find? (fun y => y.pk = x.pk) = none := by
        refine List.find?_eq_none.mpr fun y hy hk => hfresh ?_
        rw [← of_decide_eq_true hk]
        exact List.mem_map_of_mem hy
      simp [Database.statusOf, column, hwrites.became.here, hnone]
    obtain ⟨y, hy, _⟩ := hwrites.heralds hdocumented hnew
    obtain ⟨u, hu, _⟩ := List.mem_map.mp hy
    exact ⟨u, mem_openingRecipients.mp hu⟩
  · rintro ⟨u, hu⟩
    refine hwrites.documented ((alters_addDispute (s.dossier a) x).row rfl rfl rfl)
      (fun _ ho => ho) (fun k ho => ?_) fun b k ho => ?_
    · rw [List.mem_singleton] at ho
      rw [ho, disputeSent, List.map_map]
      exact List.mem_map_of_mem (mem_openingRecipients.mpr hu)
    · simp only [List.mem_singleton, ObjRef.dispute.injEq] at ho
      exact ho.1

/-- A dispute that is taken for review is not. -/
theorem takeForReview_undocumented {s s' : Database} {actor : UserId} {x : Dispute}
    (h : (takeForReview a pk actor).Exec Exact s (.ok x) s') : ¬ Documented s s' := by
  obtain ⟨⟨y, hfound, hopened⟩, hwrites⟩ := takeForReview_writes h
  intro hdocumented
  have hnew : s'.statusOf (.dispute a pk) ≠ s.statusOf (.dispute a pk) := by
    have hafter : (updateKey Dispute.pk pk (Dispute.takenBy actor) (s.dossier a).disputes).find?
        (fun r => r.pk = pk) = some (y.takenBy actor) := by
      rw [find_updateKey (f := Dispute.takenBy actor) (takenBy_pk actor), hfound, Option.map_some, if_pos (find_key hfound).2]
    simp [Database.statusOf, column, hwrites.became.here, hafter, hfound, hopened, Dispute.takenBy]
  obtain ⟨_, hmem, _⟩ := hwrites.heralds hdocumented hnew
  cases hmem

theorem dispute_of_resolved {d : Dossier} {actor : UserId} {cause : String} {refund : Bool}
    {b : AuctionId} {k : Nat}
    (h : .dispute b k ∈ (refundAudit a actor cause refund d).map AuditLog.obj ++ [.dispute a pk]) :
    b = a ∧ k = pk := by
  rcases List.mem_append.mp h with hrefund | hdispute
  · unfold refundAudit at hrefund
    split at hrefund <;> simp at hrefund
  · simpa using hdispute

theorem resolveDispute_documented {s s' : Database} {actor : UserId} {outcome notes : String}
    {refund : Bool} {x : Dispute}
    (h : (resolveDispute a pk actor outcome notes refund).Exec Exact s (.ok x) s') :
    Documented s s' := by
  obtain ⟨y, result, reason, restored, _, _, hwrites⟩ := resolveDispute_writes h
  refine hwrites.documented (resolved_alters pk fun _ => rfl) ?_ (fun k ho => ?_)
    fun b k ho => (dispute_of_resolved ho).1
  · intro o ho
    simp only [List.map_append, List.mem_append] at ho ⊢
    rcases ho with hrefund | hdispute
    · exact .inl (.inl hrefund)
    · exact .inr hdispute
  · have hraiser : y.raisedBy ∈ resolvingRecipients (s.dossier a).row y.raisedBy := by
      unfold resolvingRecipients withOther
      split
      · exact mem_withKey.mpr (.inl (List.mem_singleton_self _))
      · exact List.mem_singleton_self _
    rw [(dispute_of_resolved ho).2, disputeSent, List.map_map]
    exact List.mem_map_of_mem hraiser

theorem activateIfDue_documents {first : Database} (auction : LoadedAuction)
    (actor : Option UserId) :
    Documents first (activateIfDue auction actor .done .fail) first := by
  refine ⟨?_, False.elim⟩
  dsimp only
  split
  · refine ⟨fun r s' hx => ?_, fun e s' _ v hv => (by cases hv), False.elim⟩
    obtain ⟨_, hx⟩ := exec_map_ok hx
    exact fun _ _ => transition_documented hx
  · exact fun _ _ => .refl first

theorem invalidateBid_documents {first : Database} (actor : UserId) (reason : String) :
    Documents first (invalidateBidTask a pk actor reason) first := by
  refine ⟨?_, False.elim⟩
  dsimp only
  split
  · exact fun v hv => by cases hv
  split
  · exact fun v hv => by cases hv
  refine ⟨fun r s' hx => ?_, fun e s' _ v hv => (by cases hv), False.elim⟩
  obtain ⟨_, hx⟩ := exec_map_ok hx
  have halters : Alters a [.bid a pk] (first.dossier a)
      ((first.dossier a).onBid pk (.invalidatedWith actor reason first.clock)) :=
    alters_onBid _ fun _ => rfl
  exact fun _ _ => (invalidateBid_writes hx).silent (halters.row rfl rfl rfl) (fun _ ho => ho)
    fun b k ho => by simp at ho

/-- What a call leaves when it returns is documented exactly when the call is traceable. -/
theorem perform_documented (h : deed.perform w = (.ok v, w')) :
    Documented w.db w'.db ↔ deed.Traceable w.db := by
  cases deed <;> simp only [Deed.perform] at h
  case takeForReview =>
    obtain ⟨_, hx⟩ := atomic_map_ok h
    exact ⟨takeForReview_undocumented hx, False.elim⟩
  case openDispute =>
    obtain ⟨_, hx⟩ := atomic_map_ok h
    exact openDispute_documented hx
  case transition =>
    obtain ⟨_, hx⟩ := atomic_map_ok h
    exact iff_of_true (transition_documented hx) trivial
  case activateIfDue auction actor =>
    exact iff_of_true ((activateIfDue_documents auction actor).run h) trivial
  case startNow =>
    obtain ⟨_, hx⟩ := atomic_map_ok h
    obtain ⟨_, hwrites⟩ := startNow_writes hx
    exact iff_of_true (hwrites.rowOnly rfl rfl rfl) trivial
  case reschedule =>
    obtain ⟨_, hx⟩ := atomic_map_ok h
    obtain ⟨_, _, hwrites⟩ := reschedule_writes hx
    exact iff_of_true (hwrites.rowOnly rfl rfl rfl) trivial
  case pause =>
    obtain ⟨_, hx⟩ := atomic_map_ok h
    obtain ⟨_, _, hwrites⟩ := pause_writes hx
    exact iff_of_true (hwrites.rowOnly rfl rfl rfl) trivial
  case resume =>
    obtain ⟨_, hx⟩ := atomic_map_ok h
    obtain ⟨_, hwrites⟩ := resume_writes hx
    exact iff_of_true (hwrites.rowOnly rfl rfl rfl) trivial
  case cancelAuction =>
    obtain ⟨_, hx⟩ := atomic_map_ok h
    obtain ⟨_, _, hwrites⟩ := cancelAuction_writes hx
    exact iff_of_true (hwrites.rowOnly rfl rfl rfl) trivial
  case endNow =>
    obtain ⟨_, hx⟩ := atomic_map_ok h
    obtain ⟨_, hclose⟩ := endNow_closes hx
    exact iff_of_true (closeAuction_documented hclose) trivial
  case placeBid =>
    obtain ⟨_, hx⟩ := atomic_map_ok h
    exact iff_of_true (placeBid_documented hx) trivial
  case invalidateBid a pk actor reason =>
    exact iff_of_true ((invalidateBid_documents actor reason).run h) trivial
  case closeAuction =>
    obtain ⟨_, hx⟩ := atomic_map_ok h
    exact iff_of_true (closeAuction_documented hx) trivial
  case createPendingPayment =>
    obtain ⟨_, hx⟩ := run_map_ok h
    exact iff_of_true (createPendingPayment_documented hx) trivial
  case markPaid =>
    obtain ⟨_, hx⟩ := atomic_map_ok h
    exact iff_of_true (markPaid_documented hx) trivial
  case markFailed payment actor reason =>
    exact iff_of_true ((markFailed_documents payment actor reason).run h) trivial
  case markRefunded =>
    obtain ⟨_, hx⟩ := run_map_ok h
    exact iff_of_true ((markRefunded_writes hx).silent (alters_onPayment _ fun _ => rfl)
      (fun _ ho => ho) fun b k ho => by simp at ho) trivial
  case resolveDispute =>
    obtain ⟨_, hx⟩ := atomic_map_ok h
    exact iff_of_true (resolveDispute_documented hx) trivial
  case verifyProfile profile userSelected actor reason =>
    exact iff_of_true ((verifyProfile_documents profile userSelected actor reason).run h) trivial
  case rejectProfile profile userSelected actor reason =>
    exact iff_of_true ((rejectProfile_documents profile userSelected actor reason).run h) trivial
  case suspendBidder u row userSelected actor reason =>
    exact iff_of_true ((suspendBidder_documents u row userSelected actor reason).run h) trivial
  case reactivateBidder u row userSelected actor reason =>
    exact iff_of_true ((reactivateBidder_documents u row userSelected actor reason).run h) trivial

end Deeds

/-- Whether a call changes the status of `o`. -/
def changes (o : ObjRef) : World Database Nat × Occurrence → Bool
  | (w, .perform deed) => decide ((deed.perform w).2.db.statusOf o ≠ w.db.statusOf o)
  | (_, .meantime _) => false

/-- The number of audit rows about `o`. -/
def mentions (o : ObjRef) (s : Database) : Nat := s.audit.countP (fun row => row.obj = o)

/-- Every call of the run has documented what it did, and every object has at least as
many new audit rows as its status has changed. -/
structure AuditTrail (first : World Database Nat) (before : List (World Database Nat × Occurrence))
    (last : World Database Nat) : Prop where
  documented : ∀ x ∈ before, ∀ deed w', x.2 = .perform deed →
    Occurrence.step x.1 x.2 = some w' → Documented x.1.db w'.db
  counted : ∀ o, mentions o first.db + before.countP (changes o) ≤ mentions o last.db

section Runs
variable {first last w w' : World Database Nat} {before : List (World Database Nat × Occurrence)}
variable {deed : Deed} {o : ObjRef}

theorem perform_step (h : Occurrence.step w (.perform deed) = some w') :
    ∃ v, deed.perform w = (.ok v, w') := by
  simp only [Occurrence.step] at h
  split at h
  · next hperform =>
    cases h
    exact ⟨_, hperform⟩
  · cases h

/-- A documented call has a row for what it changes. -/
theorem Documented.mentioned (h : Documented w.db w'.db) (hperform : (deed.perform w).2 = w') :
    mentions o w.db + (if changes o (w, .perform deed) then 1 else 0) ≤ mentions o w'.db := by
  obtain ⟨rows, hrows, hnamed⟩ := h.audited
  simp only [mentions, changes, hperform, hrows, List.countP_append, decide_eq_true_eq]
  split
  · next hchanged =>
    obtain ⟨row, hrow, hobj⟩ := hnamed o hchanged
    have hpos : 0 < rows.countP (fun row => row.obj = o) :=
      List.countP_pos_iff.mpr ⟨row, hrow, decide_eq_true hobj⟩
    omega
  · omega

/-- Where every call is documented, no change is without a row. -/
theorem documented_counts (hrun : Run Occurrence.step first before last)
    (h : ∀ x ∈ before, ∀ deed w', x.2 = .perform deed → Occurrence.step x.1 x.2 = some w' →
      Documented x.1.db w'.db) (o : ObjRef) :
    mentions o first.db + before.countP (changes o) ≤ mentions o last.db := by
  refine hrun.history
    (I := fun before w => mentions o first.db + before.countP (changes o) ≤ mentions o w.db)
    (A := fun w ev => ∀ deed w', ev = .perform deed → Occurrence.step w ev = some w' →
      Documented w.db w'.db) (Nat.le_refl _) ?_ h
  intro before w ev w' _ hcount hdocumented hs
  rw [List.countP_append, List.countP_singleton]
  cases ev with
  | perform deed =>
    obtain ⟨v, hperform⟩ := perform_step hs
    have hnext := (hdocumented deed w' rfl hs).mentioned (o := o) (congrArg Prod.snd hperform)
    omega
  | meantime change =>
    cases hs
    have hgrown : mentions o w.db ≤ mentions o (change.val w).db :=
      (change.property w).sublist.countP_le
    simp only [changes, Bool.false_eq_true, if_false]
    omega

/-- The audit trail of a run is complete exactly when every call in it was traceable. -/
theorem audit_trail_iff (hrun : Run Occurrence.step first before last) :
    AuditTrail first before last ↔
      ∀ x ∈ before, ∀ deed, x.2 = .perform deed → deed.Traceable x.1.db := by
  constructor
  · intro htrail x hx deed hdeed
    obtain ⟨w', hs⟩ := hrun.taken_mem hx
    have hdocumented := htrail.documented x hx deed w' hdeed hs
    rw [hdeed] at hs
    obtain ⟨v, hperform⟩ := perform_step hs
    exact (perform_documented hperform).mp hdocumented
  · intro htraceable
    have hdocumented : ∀ x ∈ before, ∀ deed w', x.2 = .perform deed →
        Occurrence.step x.1 x.2 = some w' → Documented x.1.db w'.db := by
      intro x hx deed w' hdeed hs
      rw [hdeed] at hs
      obtain ⟨v, hperform⟩ := perform_step hs
      exact (perform_documented hperform).mpr (htraceable x hx deed hdeed)
    exact ⟨hdocumented, documented_counts hrun hdocumented⟩

end Runs

section Samples

/-- The sample listing is sold, and the winner complains. -/
def soldAndDisputed : List Occurrence :=
  [.perform (.transition 0 .submitted (some 1) ""), .perform (.transition 0 .approved (some 0) ""),
    .perform (.transition 0 .scheduled (some 0) "Auto-scheduled after approval"),
    .perform (.activateIfDue ⟨0, sampleAuction.withStatus .scheduled⟩ none),
    .perform (.placeBid 0 2 (.int 700000)), .perform (.closeAuction 0 none automatedClosing),
    .perform (.openDispute 0 2 "NOT_DELIVERED" "Nobody was there")]

/-- The officer takes the dispute for review. -/
theorem review_unrecorded : ¬ ∀ (first last : World Database Nat)
    (before : List (World Database Nat × Occurrence)),
    Run Occurrence.step first before last → AuditTrail first before last := by
  intro hall
  obtain ⟨before, w, hrun, _, hq⟩ := play_where Occurrence.step ⟨sampleDatabase, 0, []⟩
    (fun _ _ => true) soldAndDisputed
    (fun w => (Occurrence.step w (.perform (.takeForReview 0 5 0))).isSome) (by decide +kernel)
  obtain ⟨w', hs⟩ := Option.isSome_iff_exists.mp hq
  have htrail := hall _ _ _ (hrun.snoc hs)
  exact (audit_trail_iff (hrun.snoc hs)).mp htrail _
    (List.mem_append_right _ (List.mem_singleton_self _)) _ rfl

/-- Nothing is taken for review, and the officer hears of every dispute. -/
def overseen (w : World Database Nat) : Occurrence → Bool
  | .perform (.takeForReview _ _ _) => false
  | .perform (.openDispute _ raisedBy _ _) => decide (0 ≠ raisedBy ∧ 0 ∈ staffUsers w.db)
  | _ => true

theorem overseen_traceable {w : World Database Nat} {deed : Deed}
    (h : overseen w (.perform deed) = true) : deed.Traceable w.db := by
  cases deed with
  | takeForReview => cases h
  | openDispute a raisedBy category description =>
    obtain ⟨hother, hstaff⟩ := of_decide_eq_true h
    exact ⟨0, hother, .inl hstaff⟩
  | _ => trivial

/-- A dispute that is resolved without a review leaves a complete trail. -/
theorem audit_trail_sample : ∃ before last,
    Run Occurrence.step ⟨sampleDatabase, 0, []⟩ before last ∧
    last.db.statusOf (.dispute 0 5) = some (.dispute .resolved) ∧
    AuditTrail ⟨sampleDatabase, 0, []⟩ before last := by
  obtain ⟨before, w, hrun, hseen, hq⟩ := play_where Occurrence.step ⟨sampleDatabase, 0, []⟩
    overseen (soldAndDisputed ++
      [.perform (.resolveDispute 0 5 0 "DISMISSED" "It was delivered" false)])
    (fun w => decide (w.db.statusOf (.dispute 0 5) = some (.dispute .resolved))) (by decide +kernel)
  refine ⟨before, w, hrun, of_decide_eq_true hq, (audit_trail_iff hrun).mpr ?_⟩
  intro x hx deed hdeed
  have hoverseen := hseen x hx
  rw [hdeed] at hoverseen
  exact overseen_traceable hoverseen

end Samples

end MbararaAuction
