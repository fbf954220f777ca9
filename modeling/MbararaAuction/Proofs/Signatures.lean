import MbararaAuction.Machine.Signatures
import MbararaAuction.Proofs.Tasks
import MbararaAuction.Transactions.Outbox

namespace MbararaAuction
open Transactions Queries

seal Tx.Writes Tx.Exec

/-- A column is left alone, or it is made to name nobody, or `who` for an act that takes
`right`. -/
def Signed (who : Option UserId) (right : Right) (old new : Option Name) : Prop :=
  new = old ∨ ∃ name, new = some name ∧ (name.1 = none ∨ name = (who, right))

/-- The write signs every column that it does not leave alone. -/
def Signs (who : Option UserId) (right : Right) (write : Database → Database) : Prop :=
  ∀ s column, Signed who right (s.named column) ((write s).named column)

/-- The same of a change of the rows about one auction. -/
def SignsDossier (a : AuctionId) (who : Option UserId) (right : Right) (f : Dossier → Dossier) :
    Prop :=
  ∀ d column, Signed who right (d.named a column) ((f d).named a column)

abbrev Signing {α : Type} (who : Option UserId) (right : Right) (p : Prog α) : Prop :=
  p.Writes (Signs who right)

section Columns
variable {who : Option UserId} {right : Right} {old mid new : Option Name}

theorem Signed.refl (old : Option Name) : Signed who right old old := .inl rfl

theorem Signed.trans (h : Signed who right old mid) (h' : Signed who right mid new) :
    Signed who right old new := by
  rcases h' with rfl | hnew
  · exact h
  · exact .inr hnew

variable {α : Type} {g : α → Name} {rows : List α} {x : α}

/-- A row at the end of a log. -/
theorem signed_append (h : (g x).1 = none ∨ g x = (who, right)) (n : Nat) :
    Signed who right (rows[n]?.map g) ((rows ++ [x])[n]?.map g) := by
  rcases Nat.lt_trichotomy n rows.length with hlt | rfl | hgt
  · rw [List.getElem?_append_left hlt]
    exact .refl _
  · rw [List.getElem?_concat_length]
    exact .inr ⟨g x, rfl, h⟩
  · have hlonger : (rows ++ [x]).length ≤ n := by simpa using Nat.succ_le_of_lt hgt
    rw [List.getElem?_eq_none hgt.le, List.getElem?_eq_none hlonger]
    exact .refl _

/-- A new row under a key: an old row under the key would still be found first. -/
theorem signed_find (p : α → Bool) (h : (g x).1 = none ∨ g x = (who, right)) :
    Signed who right ((rows.find? p).map g) (((rows ++ [x]).find? p).map g) := by
  rw [List.find?_append]
  cases rows.find? p with
  | some y => exact .refl _
  | none =>
    cases hx : p x with
    | false => simp [hx, Signed]
    | true => simp [hx, Signed, h]

theorem signed_updateKey {key : α → Nat} {f : α → α} {pk : Nat} (hf : ∀ x, key (f x) = key x)
    (h : ∀ x, g (f x) = g x ∨ (g (f x)).1 = none ∨ g (f x) = (who, right))
    (k : Nat) : Signed who right ((rows.find? (fun x => key x = k)).map g)
      (((updateKey key pk f rows).find? (fun x => key x = k)).map g) := by
  rw [find_updateKey hf]
  cases rows.find? (fun x => key x = k) with
  | none => exact .refl _
  | some x =>
    simp only [Option.map_some]
    split
    · rcases h x with hsame | hsigned
      · exact .inl (congrArg some hsame)
      · exact .inr ⟨_, rfl, hsigned⟩
    · exact .refl _

end Columns

section Writes
variable {who : Option UserId} {right : Right} {a : AuctionId} {pk : Nat}

theorem signs_id : Signs who right id := fun _ _ => .refl _

theorem signs_audit {entry : AuditLog} (h : entry.actor = none ∨ entry.name = (who, right)) :
    Signs who right fun s => { s with audit := s.audit ++ [entry] } := by
  intro s column
  cases column with
  | audit n => exact signed_append h n
  | about => exact .refl _

theorem signs_notification (row : Notification) :
    Signs who right fun s => { s with notifications := s.notifications ++ [row] } := by
  intro s column
  cases column <;> exact .refl _

theorem signs_verify (p : ProfileRef) (status : VerificationStatus) (actor : UserId) (t saved : Time) :
    Signs who right (.verify p status actor t saved) := by
  intro s column
  cases p <;> cases column <;> exact .refl _

theorem signs_onBidder (u : UserId) (f : BidderProfile → BidderProfile) :
    Signs who right (.onBidder u f) := by
  intro s column
  cases column <;> exact .refl _

theorem signs_amend {f : Dossier → Dossier} (hf : SignsDossier a who right f) :
    Signs who right fun s => s.amend a f := by
  intro s column
  cases column with
  | audit n => exact .refl _
  | about b column =>
    by_cases hb : b = a
    · subst hb
      simp only [Database.named, amend_self]
      exact hf _ column
    · simp only [Database.named, amend_other _ _ _ hb]
      exact .refl _

theorem signs_onRow (f : Auction → Auction) : SignsDossier a who right (.onRow f) := by
  intro d column
  cases column <;> exact .refl _

theorem signs_addLog {log : StatusLog} (h : log.name a = (who, right)) :
    SignsDossier a who right (.addLog log) := by
  intro d column
  cases column with
  | log n => exact signed_append (.inr h) n
  | _ => exact .refl _

theorem signs_addBid {bid : Bid}
    (h : ∀ column, (bid.name column).1 = none ∨ bid.name column = (who, right)) :
    SignsDossier a who right (.addBid bid) := by
  intro d column
  cases column with
  | bid pk column => exact signed_find (g := fun b : Bid => b.name column) _ (h column)
  | _ => exact .refl _

theorem signs_addPayment {payment : Payment} (h : payment.recordedBy = none) :
    SignsDossier a who right (.addPayment payment) := by
  intro d column
  cases column with
  | payment pk => exact signed_find _ (.inl h)
  | _ => exact .refl _

theorem signs_addDispute {dispute : Dispute}
    (h : ∀ column, (dispute.name a column).1 = none ∨ dispute.name a column = (who, right)) :
    SignsDossier a who right (.addDispute dispute) := by
  intro d column
  cases column with
  | dispute pk column => exact signed_find (g := fun x : Dispute => x.name a column) _ (h column)
  | _ => exact .refl _

theorem signs_onBid {f : Bid → Bid} (hf : ∀ b, (f b).pk = b.pk)
    (h : ∀ b column, (f b).name column = b.name column ∨ ((f b).name column).1 = none ∨
      (f b).name column = (who, right)) : SignsDossier a who right (.onBid pk f) := by
  intro d column
  cases column with
  | bid k column => exact signed_updateKey (g := fun b : Bid => b.name column) hf (h · column) k
  | _ => exact .refl _

theorem signs_onPayment {f : Payment → Payment} (hf : ∀ p, (f p).pk = p.pk)
    (h : ∀ p, (f p).name = p.name ∨ (f p).name.1 = none ∨ (f p).name = (who, right)) :
    SignsDossier a who right (.onPayment pk f) := by
  intro d column
  cases column with
  | payment k => exact signed_updateKey hf h k
  | _ => exact .refl _

theorem signs_onDispute {f : Dispute → Dispute} (hf : ∀ x, (f x).pk = x.pk)
    (h : ∀ x column, (f x).name a column = x.name a column ∨ ((f x).name a column).1 = none ∨
      (f x).name a column = (who, right)) : SignsDossier a who right (.onDispute pk f) := by
  intro d column
  cases column with
  | dispute k column => exact signed_updateKey (g := fun x : Dispute => x.name a column) hf (h · column) k
  | _ => exact .refl _

end Writes

section Statements
variable {who : Option UserId} {right : Right} {a : AuctionId} {pk : Nat}

theorem signing_record {actor : Option UserId} {action : AuditAction} {obj : ObjRef}
    {reason : String}
    (h : actor = none ∨ (AuditLog.mk actor action obj reason).name = (who, right)) :
    Signing who right (record actor action obj reason) := writes_update (signs_audit h)

theorem signing_query {α : Type} (f : Database → α) : Signing who right (Tx.query f : Prog α) :=
  writes_query signs_id f

theorem signing_lockedAuction : Signing who right (lockedAuction a) :=
  Tx.Writes.bind (writes_acquire _) fun _ => signing_query _

theorem signing_lockedDispute : Signing who right (lockedDispute a pk) :=
  Tx.Writes.bind (writes_acquire _) fun _ => Tx.Writes.bind (signing_query _) fun _ => writes_require _ _

theorem signing_now : Signing who right now := writes_glance _

theorem signing_saveAuction (f : Auction → Auction) : Signing who right (saveAuction a f) :=
  Tx.Writes.bind (writes_acquire _) fun _ => writes_update (signs_amend (signs_onRow f))

theorem signing_saveDispute {f : Dispute → Dispute} (hf : ∀ x, (f x).pk = x.pk)
    (h : ∀ x column, (f x).name a column = x.name a column ∨ ((f x).name a column).1 = none ∨
      (f x).name a column = (who, right)) : Signing who right (saveDispute a pk f) :=
  Tx.Writes.bind (writes_acquire _) fun _ => writes_update (signs_amend (signs_onDispute hf h))

theorem signing_savePayment {f : Payment → Payment} (hf : ∀ p, (f p).pk = p.pk)
    (h : ∀ p, (f p).name = p.name ∨ (f p).name.1 = none ∨ (f p).name = (who, right)) :
    Signing who right (savePayment a pk f) :=
  Tx.Writes.bind (writes_acquire _) fun _ => writes_update (signs_amend (signs_onPayment hf h))

theorem signing_nextPk (pks : Dossier → List Nat) : Signing who right (nextPk a pks) := by
  refine Tx.Writes.bind writes_draw fun _ => Tx.Writes.bind (signing_query _) fun _ => ?_
  exact Tx.Writes.bind (writes_refuse _ _) fun _ => writes_pure _

theorem signing_createNotification (user : UserId) (n : Notice) :
    Signing who right (createNotification user n) := by
  refine Tx.Writes.bind writes_draw fun _ => ?_
  exact Tx.Writes.bind (writes_update (signs_notification _)) fun _ => writes_pure _

theorem signing_notify (n : Notice) : Signing who right (notify n) := by
  unfold notify
  split
  · exact writes_pure _
  · exact Tx.Writes.bind (signing_createNotification _ _) fun _ => writes_send _

theorem signing_notifyAuctionUpdate {auction : Auction} {event : NotificationEvent}
    {title message : String} :
    Signing who right (notifyAuctionUpdate a auction event title message) :=
  Tx.Writes.bind (signing_query _) fun _ => writes_forEach (fun _ => signing_notify _) _

/-- A transition puts the name of its actor into both logs. -/
theorem signing_transition {toStatus : Status} {actor : Option UserId} {reason : String}
    (h : toStatus.right a = right) : Signing actor right (transition a toStatus actor reason) := by
  refine Tx.Writes.bind signing_lockedAuction fun _ => ?_
  refine Tx.Writes.bind (writes_refuse _ _) fun _ => Tx.Writes.bind (writes_refuse _ _) fun _ => ?_
  refine Tx.Writes.bind (signing_saveAuction _) fun _ => ?_
  refine Tx.Writes.bind (writes_update (signs_amend (signs_addLog (by rw [← h]; rfl)))) fun _ => ?_
  refine Tx.Writes.bind ?_ fun _ => Tx.Writes.bind ?_ fun _ => writes_pure _
  · unfold recordTransition
    cases toStatus <;>
      first
      | exact writes_pure _
      | exact signing_record (.inr (by rw [← h]; rfl))
  · unfold notifyTransition
    split
    · exact signing_notify _
    · exact signing_notify _
    · exact signing_notify _
    · exact writes_pure _

end Statements

section Services
variable {a : AuctionId} {pk : Nat} {actor : UserId} {reason : String}

theorem signing_submitForReview : Signing (some actor) (.seller a) (submitForReview a actor) :=
  signing_transition rfl

theorem signing_approve : Signing (some actor) .staff (approve a actor reason) :=
  signing_transition rfl

theorem signing_autoSchedule : Signing (some actor) .staff (autoSchedule a actor) :=
  signing_transition rfl

theorem signing_reject : Signing (some actor) .staff (reject a actor reason) :=
  signing_transition rfl

theorem signing_activate {who : Option UserId} : Signing who .staff (activate a who) :=
  signing_transition rfl

theorem signing_startNow : Signing (some actor) .staff (startNow a actor) := by
  refine Tx.Writes.bind signing_lockedAuction fun _ => Tx.Writes.bind (writes_refuse _ _) fun _ => ?_
  refine Tx.Writes.bind signing_now fun _ => Tx.Writes.bind (writes_refuse _ _) fun _ => ?_
  refine Tx.Writes.bind (writes_when _ ?_) fun _ => signing_transition rfl
  exact Tx.Writes.bind (signing_saveAuction _) fun _ => signing_record (.inr rfl)

theorem signing_reschedule {startTime endTime : Option Time} :
    Signing (some actor) .staff (reschedule a actor reason startTime endTime) := by
  refine Tx.Writes.bind (writes_ofExcept _) fun _ => Tx.Writes.bind signing_lockedAuction fun _ => ?_
  refine Tx.Writes.bind signing_now fun _ => Tx.Writes.bind (writes_refuse _ _) fun _ => ?_
  refine Tx.Writes.bind (writes_refuse _ _) fun _ => Tx.Writes.bind (writes_refuse _ _) fun _ => ?_
  refine Tx.Writes.bind (writes_refuse _ _) fun _ => Tx.Writes.bind (writes_refuse _ _) fun _ => ?_
  refine Tx.Writes.bind (writes_refuse _ _) fun _ => Tx.Writes.bind (writes_refuse _ _) fun _ => ?_
  refine Tx.Writes.bind (signing_saveAuction _) fun _ => ?_
  refine Tx.Writes.bind (signing_record (.inr rfl)) fun _ => ?_
  exact Tx.Writes.bind signing_notifyAuctionUpdate fun _ => writes_pure _

theorem signing_pause : Signing (some actor) .staff (pause a actor reason) := by
  refine Tx.Writes.bind (writes_ofExcept _) fun _ => Tx.Writes.bind signing_lockedAuction fun _ => ?_
  refine Tx.Writes.bind (signing_transition rfl) fun _ => ?_
  refine Tx.Writes.bind (signing_record (.inr rfl)) fun _ => ?_
  exact Tx.Writes.bind signing_notifyAuctionUpdate fun _ => writes_pure _

theorem signing_resume : Signing (some actor) .staff (resume a actor) := by
  refine Tx.Writes.bind signing_lockedAuction fun _ => Tx.Writes.bind (writes_refuse _ _) fun _ => ?_
  refine Tx.Writes.bind signing_now fun _ => Tx.Writes.bind (writes_refuse _ _) fun _ => ?_
  refine Tx.Writes.bind (signing_transition rfl) fun _ => ?_
  refine Tx.Writes.bind (signing_record (.inr rfl)) fun _ => ?_
  exact Tx.Writes.bind signing_notifyAuctionUpdate fun _ => writes_pure _

theorem signing_cancelAuction : Signing (some actor) .staff (cancelAuction a actor reason) := by
  refine Tx.Writes.bind (writes_ofExcept _) fun _ => Tx.Writes.bind signing_lockedAuction fun _ => ?_
  refine Tx.Writes.bind (writes_refuse _ _) fun _ => ?_
  refine Tx.Writes.bind (signing_transition rfl) fun _ => ?_
  exact Tx.Writes.bind signing_notifyAuctionUpdate fun _ => writes_pure _

theorem signing_createPendingPayment {who : Option UserId} {auction : Auction} :
    Signing who .staff (createPendingPayment a auction) := by
  refine Tx.Writes.bind (signing_query _) fun _ => ?_
  split
  · exact writes_pure _
  · refine Tx.Writes.bind ?_ fun _ => Tx.Writes.bind (signing_record (.inl rfl)) fun _ => writes_pure _
    refine Tx.Writes.bind (signing_nextPk _) fun _ => Tx.Writes.bind (signing_query _) fun _ => ?_
    refine Tx.Writes.bind (writes_refuse _ _) fun _ => ?_
    exact Tx.Writes.bind (writes_update (signs_amend (signs_addPayment rfl))) fun _ => writes_pure _
  · exact writes_pure _

theorem signing_closeAuction {who : Option UserId} : Signing who .staff (closeAuction a who reason) := by
  refine Tx.Writes.bind signing_lockedAuction fun _ => Tx.Writes.bind (writes_refuse _ _) fun _ => ?_
  refine Tx.Writes.bind (signing_query _) fun _ => Tx.Writes.bind (signing_saveAuction _) fun _ => ?_
  refine Tx.Writes.bind (signing_transition rfl) fun _ => ?_
  split
  · refine Tx.Writes.bind (signing_record (.inr rfl)) fun _ => Tx.Writes.bind (signing_notify _) fun _ => ?_
    exact Tx.Writes.bind signing_createPendingPayment fun _ => writes_pure _
  · exact Tx.Writes.bind (signing_notify _) fun _ => writes_pure _

theorem signing_endNow : Signing (some actor) .staff (endNow a actor reason) := by
  refine Tx.Writes.bind (writes_ofExcept _) fun _ => Tx.Writes.bind signing_lockedAuction fun _ => ?_
  exact Tx.Writes.bind (writes_refuse _ _) fun _ => signing_closeAuction

theorem signing_createBid {bidder : UserId} {amount : Money} {sequenceNo : Nat} :
    Signing (some bidder) .bidder (createBid a bidder amount sequenceNo) := by
  refine Tx.Writes.bind (signing_nextPk _) fun _ => Tx.Writes.bind signing_now fun _ => ?_
  refine Tx.Writes.bind (signing_query _) fun _ => Tx.Writes.bind (writes_refuse _ _) fun _ => ?_
  refine Tx.Writes.bind (writes_refuse _ _) fun _ => ?_
  refine Tx.Writes.bind (writes_update (signs_amend (signs_addBid ?_))) fun _ => writes_pure _
  intro column
  cases column <;> simp [Bid.name]

theorem signing_notifyOutbid {who : Option UserId} {right : Right} {auction : Auction} {bid : Bid}
    {amount : String} : Signing who right (notifyOutbid a auction bid amount) := by
  refine Tx.Writes.bind (signing_query _) fun _ => ?_
  split
  · exact writes_pure _
  · split
    · exact writes_pure _
    · exact signing_notify _

theorem signing_placeBid {bidder : UserId} {amount : Number} :
    Signing (some bidder) .bidder (placeBid a bidder amount) := by
  refine Tx.Writes.bind (writes_ofExcept _) fun _ => Tx.Writes.bind signing_lockedAuction fun _ => ?_
  refine Tx.Writes.bind signing_now fun _ => Tx.Writes.bind (writes_refuse _ _) fun _ => ?_
  refine Tx.Writes.bind (writes_glance _) fun _ => Tx.Writes.bind (writes_glance _) fun _ => ?_
  refine Tx.Writes.bind (writes_refuse _ _) fun _ => Tx.Writes.bind (writes_refuse _ _) fun _ => ?_
  refine Tx.Writes.bind (writes_refuse _ _) fun _ => Tx.Writes.bind (writes_refuse _ _) fun _ => ?_
  refine Tx.Writes.bind (signing_query _) fun _ => Tx.Writes.bind signing_createBid fun _ => ?_
  refine Tx.Writes.bind (writes_when _ (signing_record (.inr rfl))) fun _ => ?_
  refine Tx.Writes.bind (signing_saveAuction _) fun _ => ?_
  refine Tx.Writes.bind (signing_record (.inr rfl)) fun _ => ?_
  exact Tx.Writes.bind signing_notifyOutbid fun _ => writes_pure _

theorem signing_invalidateBid : Signing (some actor) .staff (invalidateBid a pk actor reason) := by
  refine Tx.Writes.bind signing_lockedAuction fun _ => Tx.Writes.bind signing_now fun _ => ?_
  refine Tx.Writes.bind ?_ fun _ => Tx.Writes.bind (signing_query _) fun _ => ?_
  · refine Tx.Writes.bind (writes_acquire _) fun _ => writes_update (signs_amend ?_)
    refine signs_onBid (fun _ => rfl) fun b column => ?_
    cases column <;> simp [Bid.name, Bid.invalidatedWith]
  · exact Tx.Writes.bind (signing_saveAuction _) fun _ => signing_record (.inr rfl)

theorem signing_markPaid {payment : LoadedPayment} {method reference notes : String} :
    Signing (some actor) .staff (markPaid payment actor method reference notes) := by
  refine Tx.Writes.bind (writes_refuse _ _) fun _ => Tx.Writes.bind signing_now fun _ => ?_
  refine Tx.Writes.bind (writes_refuse _ _) fun _ => ?_
  refine Tx.Writes.bind (signing_savePayment (paidWith_pk _ _ _ _ _) fun _ => .inr (.inr rfl)) fun _ => ?_
  refine Tx.Writes.bind (signing_record (.inr rfl)) fun _ => Tx.Writes.bind ?_ fun _ => ?_
  · unfold LoadedPayment.getAuction
    split
    · exact writes_pure _
    · exact writes_glance _
  · refine Tx.Writes.bind (writes_when _ ?_) fun _ => ?_
    · exact Tx.Writes.bind (signing_transition rfl) fun _ => writes_pure _
    · refine Tx.Writes.bind (Tx.Writes.bind (signing_notify _) fun _ => signing_notify _) fun _ => ?_
      exact writes_pure _

theorem signing_savePaymentFailed {payment : LoadedPayment} :
    Signing (some actor) .staff (savePaymentFailed payment actor reason) :=
  signing_savePayment (failedWith_pk _ _) fun _ => .inr (.inr rfl)

theorem signing_recordPaymentFailed :
    Signing (some actor) .staff (recordPaymentFailed a pk actor reason) :=
  signing_record (.inr rfl)

theorem signing_openDispute {raisedBy : UserId} {category description : String} :
    Signing (some raisedBy) (.party a) (openDispute a raisedBy category description) := by
  refine Tx.Writes.bind (writes_refuse _ _) fun _ => Tx.Writes.bind (writes_require _ _) fun _ => ?_
  refine Tx.Writes.bind signing_lockedAuction fun _ => Tx.Writes.bind (writes_refuse _ _) fun _ => ?_
  refine Tx.Writes.bind (signing_query _) fun _ => Tx.Writes.bind (writes_refuse _ _) fun _ => ?_
  refine Tx.Writes.bind (writes_glance _) fun _ => Tx.Writes.bind (writes_refuse _ _) fun _ => ?_
  refine Tx.Writes.bind ?_ fun _ => Tx.Writes.bind (signing_transition rfl) fun _ => ?_
  · refine Tx.Writes.bind (signing_nextPk _) fun _ => Tx.Writes.bind (writes_glance _) fun _ => ?_
    refine Tx.Writes.bind (writes_refuse _ _) fun _ => Tx.Writes.bind ?_ fun _ => writes_pure _
    refine Tx.Writes.bind (writes_acquire _) fun _ => writes_update (signs_amend (signs_addDispute ?_))
    intro column
    cases column <;> simp [Dispute.name]
  · refine Tx.Writes.bind (signing_record (.inr rfl)) fun _ => ?_
    refine Tx.Writes.bind (writes_glance _) fun _ => ?_
    exact Tx.Writes.bind (writes_forEach (fun _ => signing_notify _) _) fun _ => writes_pure _

theorem signing_takeForReview : Signing (some actor) .staff (takeForReview a pk actor) := by
  refine Tx.Writes.bind signing_lockedDispute fun _ => Tx.Writes.bind (writes_refuse _ _) fun _ => ?_
  refine Tx.Writes.bind (signing_saveDispute (takenBy_pk _) fun x column => ?_) fun _ => writes_pure _
  cases column <;> simp [Dispute.name, Dispute.takenBy]

theorem signing_resolveDispute {outcome notes : String} {refund : Bool} :
    Signing (some actor) .staff (resolveDispute a pk actor outcome notes refund) := by
  refine Tx.Writes.bind (writes_require _ _) fun _ => Tx.Writes.bind (writes_refuse _ _) fun _ => ?_
  refine Tx.Writes.bind signing_lockedDispute fun _ => Tx.Writes.bind (writes_refuse _ _) fun _ => ?_
  refine Tx.Writes.bind (writes_glance _) fun _ => Tx.Writes.bind (writes_when _ ?_) fun _ => ?_
  · refine Tx.Writes.bind (writes_glance _) fun _ => Tx.Writes.bind (writes_require _ _) fun _ => ?_
    refine Tx.Writes.bind (writes_refuse _ _) fun _ => ?_
    refine Tx.Writes.bind (writes_refuse _ _) fun _ => Tx.Writes.bind (writes_refuse _ _) fun _ => ?_
    refine Tx.Writes.bind ?_ fun _ => signing_record (.inr rfl)
    exact signing_savePayment (refundedWith_pk _ _ _) fun _ => .inr (.inr rfl)
  · refine Tx.Writes.bind (signing_transition rfl) fun _ => Tx.Writes.bind (writes_when _ ?_) fun _ => ?_
    · exact Tx.Writes.bind (signing_transition rfl) fun _ => writes_pure _
    · refine Tx.Writes.bind signing_now fun _ =>
        Tx.Writes.bind (signing_saveDispute (resolvedWith_pk _ _ _ _ _) fun x column => ?_) fun _ => ?_
      · cases column <;> simp [Dispute.name, Dispute.resolvedWith]
      · refine Tx.Writes.bind (signing_record (.inr rfl)) fun _ => ?_
        exact Tx.Writes.bind (writes_forEach (fun _ => signing_notify _) _) fun _ => writes_pure _

theorem signing_saveVerification {profile : Profile} {status : VerificationStatus} {who : Option UserId}
    {right : Right} : Signing who right (saveVerification profile status actor) := by
  refine Tx.Writes.bind signing_now fun _ => Tx.Writes.bind signing_now fun _ => ?_
  refine Tx.Writes.bind (writes_acquire _) fun _ => ?_
  exact Tx.Writes.bind (writes_update (signs_verify _ _ _ _ _)) fun _ => writes_pure _

theorem signing_saveAccountStatus {u : UserId} {row : BidderProfile} {status : AccountStatus}
    {who : Option UserId} {right : Right} : Signing who right (saveAccountStatus u row status) := by
  refine Tx.Writes.bind signing_now fun _ => Tx.Writes.bind (writes_acquire _) fun _ => ?_
  exact Tx.Writes.bind (writes_update (signs_onBidder _ _)) fun _ => writes_pure _

theorem signing_recordProfile {p : ProfileRef} {action : AuditAction} :
    Signing (some actor) (AuditLog.mk none action p.obj "").right
      (recordProfile p action actor reason) :=
  signing_record (.inr rfl)

/-- A transaction signs with one name, for an act of one kind. -/
theorem signing_prog (l : ServiceTx) : Signing l.signer l.right l.prog := by
  cases l with
  | submitForReview => exact signing_submitForReview.map _
  | approve => exact signing_approve.map _
  | autoSchedule => exact signing_autoSchedule.map _
  | reject => exact signing_reject.map _
  | activate => exact signing_activate.map _
  | startNow => exact signing_startNow.map _
  | reschedule => exact signing_reschedule.map _
  | pause => exact signing_pause.map _
  | resume => exact signing_resume.map _
  | cancelAuction => exact signing_cancelAuction.map _
  | endNow => exact signing_endNow.map _
  | placeBid => exact signing_placeBid.map _
  | invalidateBid => exact signing_invalidateBid.map _
  | closeAuction => exact signing_closeAuction.map _
  | markPaid => exact signing_markPaid.map _
  | savePaymentFailed => exact signing_savePaymentFailed.map _
  | recordPaymentFailed => exact signing_recordPaymentFailed.map _
  | createNotification => exact (signing_createNotification _ _).map _
  | deliver => exact (writes_send _).map _
  | openDispute => exact signing_openDispute.map _
  | takeForReview => exact signing_takeForReview.map _
  | resolveDispute => exact signing_resolveDispute.map _
  | saveVerification => exact signing_saveVerification.map _
  | saveAccountStatus => exact signing_saveAccountStatus.map _
  | recordProfile => exact signing_recordProfile.map _

theorem service_signs {l : ServiceTx} {sees : Database → Database → Prop} {s s' : Database}
    {out : Except PyError Value} (h : l.prog.Exec sees s out s') (column : Column) :
    Signed l.signer l.right (s.named column) (s'.named column) := by
  refine Tx.Writes.exec (R := fun s s' => ∀ column, Signed l.signer l.right (s.named column)
    (s'.named column)) (fun _ _ => .refl _) ?_ (fun hw s => hw s) (signing_prog l) h column
  exact fun hst htu column => (hst column).trans (htu column)

end Services

section Rights
variable {s : Database} {u : UserId}

/-- Staff are let in everywhere. -/
theorem asked_staff (h : Right.staff.Asked s u) (right : Right) : right.Asked s u := by
  obtain ⟨hpk, hactive, hstaff⟩ := h
  refine ⟨hpk, hactive, ?_⟩
  cases right with
  | staff => exact hstaff
  | seller a => exact .inl hstaff
  | bidder => exact .inl hstaff
  | party a => trivial

/-- What a call may issue is signed as the call is, or not at all, and takes no more. -/
theorem may_signs {call : Call} {l : ServiceTx} (h : call.May l) (hname : l.signer = some u) :
    call.signer = some u ∧ ∀ s, call.right.Asked s u → l.right.Asked s u := by
  have hannounced : ∀ {p actor}, Announces p actor l → actor = u := by
    intro p actor ha
    rcases ha with ⟨_, _, rfl⟩ | ⟨_, _, rfl⟩ | ⟨_, rfl⟩
    · exact Option.some.inj hname
    · cases hname
    · cases hname
  cases call with
  | approve a actor reason =>
    rcases h with rfl | rfl <;> exact ⟨hname, fun _ => id⟩
  | sweepDue actor =>
    rcases h with ⟨_, rfl⟩ | ⟨_, rfl⟩ <;> exact ⟨hname, fun _ => id⟩
  | markFailed a pk selectRelated actor reason =>
    rcases h with ⟨_, _, rfl⟩ | ⟨_, rfl⟩ | ⟨_, _, rfl⟩ | ⟨_, rfl⟩
    · exact ⟨hname, fun _ => id⟩
    · exact ⟨hname, fun _ => id⟩
    · cases hname
    · cases hname
  | verifyProfile p userSelected actor reason | rejectProfile p userSelected actor reason =>
    rcases h with ⟨_, _, _, rfl⟩ | h
    · exact ⟨hname, fun _ => id⟩
    · exact ⟨congrArg some (hannounced h), fun _ hs => asked_staff hs _⟩
  | suspendBidder v userSelected actor reason | reactivateBidder v userSelected actor reason =>
    rcases h with ⟨_, rfl⟩ | h
    · cases hname
    · exact ⟨congrArg some (hannounced h), fun _ hs => asked_staff hs _⟩
  | closeAuction | closeEndedAuctions | activateScheduledAuctions =>
    obtain ⟨_, rfl⟩ := h
    exact ⟨hname, fun _ => id⟩
  | markPaid =>
    obtain ⟨_, _, rfl⟩ := h
    exact ⟨hname, fun _ => id⟩
  | submitForReview | reject | activateIfDue | startNow | reschedule | pause | resume
  | cancelAuction | endNow | placeBid | invalidateBid | openDispute | takeForReview
  | resolveDispute =>
    subst h
    exact ⟨hname, fun _ => id⟩

end Rights

end MbararaAuction
