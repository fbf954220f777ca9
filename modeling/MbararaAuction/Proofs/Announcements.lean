import MbararaAuction.Model.Services
import MbararaAuction.Transactions.Outbox

namespace MbararaAuction
open Transactions Queries

seal Tx.Exec Tx.Says Tx.Firm

section Statements
variable {P : Nat → Prop} {Q : PyError → Prop} {a : AuctionId} {pk : Nat}

theorem mute_refuse (c : Prop) [Decidable c] {e : PyError} : (Tx.refuse c e : Prog Unit).Mute :=
  says_refuse c fun _ => trivial

theorem says_lockedAuction : (lockedAuction a).Says P Q :=
  (says_acquire _).bind fun _ => says_query _

theorem says_saveAuction (f : Auction → Auction) : (saveAuction a f).Says P Q :=
  (says_acquire _).bind fun _ => says_update _

theorem says_saveBid (f : Bid → Bid) : (saveBid a pk f).Says P Q :=
  (says_acquire _).bind fun _ => says_update _

theorem says_savePayment (f : Payment → Payment) : (savePayment a pk f).Says P Q :=
  (says_acquire _).bind fun _ => says_update _

theorem says_record {actor : Option UserId} {action : AuditAction} {obj : ObjRef}
    {reason : String} : (record actor action obj reason).Says P Q := says_update _

/-- A new row clashes with an old one or is inserted. -/
theorem says_nextPk {pks : Dossier → List Nat} (h : Q (.integrityError "pkey")) :
    (nextPk a pks).Says P Q :=
  says_draw.bind fun _ => (says_query _).bind fun _ =>
    (says_refuse _ fun _ => h).bind fun _ => says_pure _

theorem says_createPayment {amount : Money} (h : ∀ key, Q (.integrityError key)) :
    (createPayment a amount).Says P Q := by
  refine (says_nextPk (h _)).bind fun _ => (says_query _).bind fun _ => ?_
  exact (says_refuse _ fun _ => h _).bind fun _ => (says_update _).bind fun _ => says_pure _

theorem mute_createBid {bidder : UserId} {amount : Money} {sequenceNo : Nat} :
    (createBid a bidder amount sequenceNo).Mute := by
  refine (says_nextPk trivial).bind fun _ => (says_glance _).bind fun _ => ?_
  refine (says_query _).bind fun _ => (mute_refuse _).bind fun _ => ?_
  exact (mute_refuse _).bind fun _ => (says_update _).bind fun _ => says_pure _

theorem mute_lockedDispute : (lockedDispute a pk).Mute :=
  (says_acquire _).bind fun _ => (says_query _).bind fun _ => says_require _ trivial

theorem mute_createDispute {raisedBy : UserId} {category : Category} {description : String}
    {before : Status} : (createDispute a raisedBy category description before).Mute := by
  refine (says_nextPk trivial).bind fun _ => (says_glance _).bind fun _ => ?_
  refine (mute_refuse _).bind fun _ => Tx.Says.bind ?_ fun _ => says_pure _
  exact (says_acquire _).bind fun _ => says_update _

end Statements

section Notices
variable {Q : PyError → Prop} {a : AuctionId} {auction : Auction}

theorem admits_createNotification (user : UserId) (n : Notice) :
    (createNotification user n).Admits Q :=
  says_draw.bind fun _ => (says_update _).bind fun _ => says_pure _

theorem admits_notify (n : Notice) : (notify n).Admits Q := by
  unfold notify
  split
  · exact says_pure _
  · exact (admits_createNotification _ n).bind fun _ => says_send trivial

theorem admits_notifyOutbid {bid : Bid} {amount : String} :
    (notifyOutbid a auction bid amount).Admits Q := by
  refine (says_query _).bind fun bids => ?_
  cases firstBy latestHighestFirst ((accepted bids).filter (fun b => b.pk ≠ bid.pk)) with
  | none => exact says_pure _
  | some b =>
    by_cases hb : b.bidder = bid.bidder
    · simpa only [hb, ↓reduceIte] using says_pure ()
    · simpa only [hb, ↓reduceIte] using admits_notify _

theorem admits_notifyAuctionUpdate {event : NotificationEvent} {title message : String} :
    (notifyAuctionUpdate a auction event title message).Admits Q :=
  (says_query _).bind fun _ => says_forEach (fun _ => admits_notify _) _

theorem admits_notifyTransition {toStatus : Status} {reason : String} :
    (notifyTransition a auction toStatus reason).Admits Q := by
  unfold notifyTransition
  split <;> first | exact admits_notify _ | exact says_pure _

end Notices

section Services
variable {Q : PyError → Prop} {a : AuctionId} {pk : Nat} {actor : UserId} {who : Option UserId}
variable {reason : String} {toStatus : Status}

theorem says_recordTransition {P : Nat → Prop} :
    (recordTransition a toStatus who reason).Says P Q := by
  unfold recordTransition
  split
  · exact says_record
  · exact says_pure _

theorem transition_firm : (transition a toStatus who reason).Firm Q := by
  refine mute_bind says_lockedAuction fun _ => mute_bind (mute_refuse _) fun _ => ?_
  refine mute_bind (mute_refuse _) fun _ => mute_bind (says_saveAuction _) fun _ => ?_
  refine mute_bind (says_update _) fun _ => mute_bind says_recordTransition fun _ => ?_
  exact (Tx.Admits.firm admits_notifyTransition).bind fun _ => says_pure _

theorem transition_says {P : Nat → Prop} (hQ : ∀ message, Q (.invalidTransition message))
    (h : ∀ auction, (notifyTransition a auction toStatus reason).Says P Q) :
    (transition a toStatus who reason).Says P Q := by
  refine says_lockedAuction.bind fun _ => (says_refuse _ fun _ => hQ _).bind fun _ => ?_
  refine (says_refuse _ fun _ => hQ _).bind fun _ => (says_saveAuction _).bind fun _ => ?_
  refine (says_update _).bind fun _ => says_recordTransition.bind fun _ => ?_
  exact (h _).bind fun _ => says_pure _

/-- A transition that the seller does not hear about. -/
theorem mute_transition (h : ∀ auction, (notifyTransition a auction toStatus reason).Mute) :
    (transition a toStatus who reason).Mute := transition_says (fun _ => trivial) h

theorem needReason_mute : (Tx.ofExcept (needReason reason) : Prog String).Mute :=
  says_ofExcept fun _ _ => trivial

theorem startNow_firm : (startNow a actor).Firm Q := by
  refine mute_bind says_lockedAuction fun _ => mute_bind (mute_refuse _) fun _ => ?_
  refine mute_bind (says_glance _) fun _ => mute_bind (mute_refuse _) fun _ => ?_
  refine mute_bind (says_when _ ?_) fun _ => transition_firm
  exact (says_saveAuction _).bind fun _ => says_record

theorem reschedule_firm {startTime endTime : Option Time} :
    (reschedule a actor reason startTime endTime).Firm Q := by
  refine mute_bind needReason_mute fun _ => mute_bind says_lockedAuction fun _ => ?_
  refine mute_bind (says_glance _) fun _ => mute_bind (mute_refuse _) fun _ => ?_
  refine mute_bind (mute_refuse _) fun _ => mute_bind (mute_refuse _) fun _ => ?_
  refine mute_bind (mute_refuse _) fun _ => mute_bind (mute_refuse _) fun _ => ?_
  refine mute_bind (mute_refuse _) fun _ => mute_bind (mute_refuse _) fun _ => ?_
  refine mute_bind (says_saveAuction _) fun _ => mute_bind says_record fun _ => ?_
  exact (Tx.Admits.firm admits_notifyAuctionUpdate).bind fun _ => says_pure _

theorem pause_firm : (pause a actor reason).Firm Q := by
  refine mute_bind needReason_mute fun _ => mute_bind says_lockedAuction fun _ => ?_
  refine mute_bind (mute_transition fun _ => says_pure _) fun _ => mute_bind says_record fun _ => ?_
  exact (Tx.Admits.firm admits_notifyAuctionUpdate).bind fun _ => says_pure _

theorem resume_firm : (resume a actor).Firm Q := by
  refine mute_bind says_lockedAuction fun _ => mute_bind (mute_refuse _) fun _ => ?_
  refine mute_bind (says_glance _) fun _ => mute_bind (mute_refuse _) fun _ => ?_
  refine transition_firm.bind fun _ => says_record.bind fun _ => ?_
  exact admits_notifyAuctionUpdate.bind fun _ => says_pure _

theorem cancelAuction_firm : (cancelAuction a actor reason).Firm Q := by
  refine mute_bind needReason_mute fun _ => mute_bind says_lockedAuction fun _ => ?_
  refine mute_bind (mute_refuse _) fun _ => ?_
  refine mute_bind (mute_transition fun _ => says_pure _) fun _ => ?_
  exact (Tx.Admits.firm admits_notifyAuctionUpdate).bind fun _ => says_pure _

/-- The winner hears of the sale before the payment is inserted, and an insertion may clash. -/
theorem closeAuction_firm (h : ∀ key, Q (.integrityError key)) :
    (closeAuction a who reason).Firm Q := by
  refine mute_bind says_lockedAuction fun _ => mute_bind (mute_refuse _) fun _ => ?_
  refine mute_bind (says_query _) fun _ => mute_bind (says_saveAuction _) fun _ => ?_
  refine mute_bind (mute_transition fun _ => says_pure _) fun closed => Tx.Admits.firm ?_
  split
  · refine says_record.bind fun _ => (admits_notify _).bind fun _ => ?_
    refine Tx.Says.bind ((says_query _).bind fun _ => ?_) fun _ => says_pure _
    split
    · exact says_pure _
    · exact (says_createPayment h).bind fun _ => says_record.bind fun _ => says_pure _
    · exact says_pure _
  · exact (admits_notify _).bind fun _ => says_pure _

theorem endNow_firm (h : ∀ key, Q (.integrityError key)) : (endNow a actor reason).Firm Q := by
  refine mute_bind needReason_mute fun _ => mute_bind says_lockedAuction fun _ => ?_
  exact mute_bind (mute_refuse _) fun _ => closeAuction_firm h

theorem placeBid_firm {amount : Number} : (placeBid a actor amount).Firm Q := by
  refine mute_bind (says_ofExcept fun _ _ => trivial) fun _ => ?_
  refine mute_bind says_lockedAuction fun _ => ?_
  refine mute_bind (says_glance _) fun _ => mute_bind (mute_refuse _) fun _ => ?_
  refine mute_bind (says_glance _) fun _ => mute_bind (says_glance _) fun _ => ?_
  refine mute_bind (mute_refuse _) fun _ => mute_bind (mute_refuse _) fun _ => ?_
  refine mute_bind (mute_refuse _) fun _ => mute_bind (mute_refuse _) fun _ => ?_
  refine mute_bind (says_query _) fun _ => mute_bind mute_createBid fun _ => ?_
  refine mute_bind (says_when _ says_record) fun _ => mute_bind (says_saveAuction _) fun _ => ?_
  refine mute_bind says_record fun _ => ?_
  exact (Tx.Admits.firm admits_notifyOutbid).bind fun _ => says_pure _

theorem invalidateBid_firm : (invalidateBid a pk actor reason).Firm Q := by
  refine mute_bind says_lockedAuction fun _ => mute_bind (says_glance _) fun _ => ?_
  refine mute_bind (says_saveBid _) fun _ => mute_bind (says_query _) fun _ => ?_
  exact mute_bind (says_saveAuction _) fun _ => Tx.Admits.firm says_record

theorem says_getAuction {P : Nat → Prop} {payment : LoadedPayment} :
    payment.getAuction.Says P Q := by
  unfold LoadedPayment.getAuction
  split
  · exact says_pure _
  · exact says_glance _

theorem admits_notifyPaymentReceived {auction : Auction} {payment : Payment} :
    (notifyPaymentReceived a auction payment).Admits Q :=
  (admits_notify _).bind fun _ => admits_notify _

theorem markPaid_firm {payment : LoadedPayment} {method reference notes : String} :
    (markPaid payment actor method reference notes).Firm Q := by
  refine mute_bind (mute_refuse _) fun _ => mute_bind (says_glance _) fun _ => ?_
  refine mute_bind (mute_refuse _) fun _ => mute_bind (says_savePayment _) fun _ => ?_
  refine mute_bind says_record fun _ => mute_bind says_getAuction fun _ => ?_
  refine mute_bind (says_when _ ?_) fun _ => ?_
  · exact (mute_transition fun _ => says_pure _).bind fun _ => says_pure _
  · exact (Tx.Admits.firm admits_notifyPaymentReceived).bind fun _ => says_pure _

theorem openDispute_firm {category description : String} :
    (openDispute a actor category description).Firm Q := by
  refine mute_bind (mute_refuse _) fun _ => mute_bind (says_require _ trivial) fun _ => ?_
  refine mute_bind says_lockedAuction fun _ => mute_bind (mute_refuse _) fun _ => ?_
  refine mute_bind (says_query _) fun _ => mute_bind (mute_refuse _) fun _ => ?_
  refine mute_bind (says_glance _) fun _ => mute_bind (mute_refuse _) fun _ => ?_
  refine mute_bind mute_createDispute fun _ => ?_
  refine mute_bind (mute_transition fun _ => says_pure _) fun _ => mute_bind says_record fun _ => ?_
  refine mute_bind (says_glance _) fun _ => Tx.Admits.firm ?_
  exact (says_forEach (fun _ => admits_notify _) _).bind fun _ => says_pure _

theorem takeForReview_firm : (takeForReview a pk actor).Firm Q := by
  refine mute_bind mute_lockedDispute fun _ => mute_bind (mute_refuse _) fun _ => ?_
  refine mute_bind ((says_acquire _).bind fun _ => says_update _) fun _ => ?_
  exact Tx.Admits.firm (says_pure _)

theorem mute_refundFor {notes : String} : (refundFor a pk actor notes).Mute := by
  refine (says_glance _).bind fun _ => (says_require _ trivial).bind fun _ => ?_
  refine (mute_refuse _).bind fun _ => (mute_refuse _).bind fun _ => ?_
  exact (mute_refuse _).bind fun _ => (says_savePayment _).bind fun _ => says_record

theorem resolveDispute_firm {outcome notes : String} {refund : Bool} :
    (resolveDispute a pk actor outcome notes refund).Firm Q := by
  refine mute_bind (says_require _ trivial) fun _ => mute_bind (mute_refuse _) fun _ => ?_
  refine mute_bind mute_lockedDispute fun _ => mute_bind (mute_refuse _) fun _ => ?_
  refine mute_bind (says_glance _) fun _ => mute_bind (says_when _ mute_refundFor) fun _ => ?_
  refine mute_bind (mute_transition fun _ => says_pure _) fun _ => ?_
  refine mute_bind (says_when _ ?_) fun _ => mute_bind (says_glance _) fun _ => ?_
  · exact (mute_transition fun _ => says_pure _).bind fun _ => says_pure _
  · refine mute_bind ((says_acquire _).bind fun _ => says_update _) fun _ => ?_
    refine mute_bind says_record fun _ => Tx.Admits.firm ?_
    exact (says_forEach (fun _ => admits_notify _) _).bind fun _ => says_pure _

/-- What the text of a transaction lets it raise after it has published. -/
def ServiceTx.Late (l : ServiceTx) (e : PyError) : Prop :=
  match l with
  | closeAuction _ _ | endNow _ _ _ => ∃ key, e = .integrityError key
  | _ => False

theorem prog_firm (l : ServiceTx) : l.prog.Firm l.Late := by
  cases l with
  | submitForReview | approve | autoSchedule | reject | activate => exact transition_firm.map _
  | startNow => exact startNow_firm.map _
  | reschedule => exact reschedule_firm.map _
  | pause => exact pause_firm.map _
  | resume => exact resume_firm.map _
  | cancelAuction => exact cancelAuction_firm.map _
  | endNow =>
    refine (endNow_firm ?_).map _
    exact fun key => ⟨key, rfl⟩
  | closeAuction =>
    refine (closeAuction_firm ?_).map _
    exact fun key => ⟨key, rfl⟩
  | placeBid => exact placeBid_firm.map _
  | invalidateBid => exact invalidateBid_firm.map _
  | markPaid => exact markPaid_firm.map _
  | savePaymentFailed => exact (Tx.Admits.firm (says_savePayment _)).map _
  | recordPaymentFailed => exact (Tx.Admits.firm says_record).map _
  | createNotification => exact (Tx.Admits.firm (admits_createNotification ..)).map _
  | deliver => exact (Tx.Admits.firm (says_send trivial)).map _
  | openDispute => exact openDispute_firm.map _
  | takeForReview => exact takeForReview_firm.map _
  | resolveDispute => exact resolveDispute_firm.map _
  | saveVerification =>
    refine (Tx.Admits.firm ((says_glance _).bind fun _ => (says_glance _).bind fun _ => ?_)).map _
    exact (says_acquire _).bind fun _ => (says_update _).bind fun _ => says_pure _
  | saveAccountStatus =>
    refine (Tx.Admits.firm ((says_glance _).bind fun _ => (says_acquire _).bind fun _ => ?_)).map _
    exact (says_update _).bind fun _ => says_pure _
  | recordProfile => exact (Tx.Admits.firm says_record).map _

end Services

end MbararaAuction
