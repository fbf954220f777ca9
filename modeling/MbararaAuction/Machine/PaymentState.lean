import MbararaAuction.Machine.SaleBook

namespace MbararaAuction
open Queries

/-- The status of the payment of an auction, if it has one. -/
def Dossier.paymentStatus (d : Dossier) : Option PaymentStatus := d.payments.head?.map Payment.status

/-- The life of a payment: it is due, it is received or missed, it is given back. -/
inductive PaymentStep : Option PaymentStatus → Option PaymentStatus → Prop where
  | stay {s} : PaymentStep s s
  | due : PaymentStep none (some .pending)
  | received : PaymentStep (some .pending) (some .paid)
  | missed : PaymentStep (some .pending) (some .failed)
  | refunded : PaymentStep (some .paid) (some .refunded)

/-- The moves of `mark_paid` and `mark_failed`. -/
def Action.marks : Action → Bool
  | pay _ | fail _ => true
  | _ => false

/-- Which move takes which step. -/
inductive PaymentMove : Action → Option PaymentStatus → Option PaymentStatus → Prop where
  | received {payment} : PaymentMove (.pay payment) (some .pending) (some .paid)
  | missed {payment} : PaymentMove (.fail payment) (some .pending) (some .failed)
  | refunded {pk} : PaymentMove (.resolve pk true) (some .paid) (some .refunded)
  | due : PaymentMove .close none (some .pending)
  | stay {act s} (aside : act.marks = false) : PaymentMove act s s

/-- Somebody has marked the payment. -/
def marked : Option PaymentStatus → Bool
  | none | some .pending => false
  | some .paid | some .failed | some .refunded => true

/-- A payment about to be marked is still as pending as the object that was checked. -/
def StillPending (act : Action) (d : Dossier) : Prop :=
  match act with
  | .pay payment | .fail payment => ∃ p ∈ d.payments, p.pk = payment.row.pk ∧ p.status = .pending
  | _ => True

/-- A payment about to be refunded is still paid. -/
def StillPaid (act : Action) (d : Dossier) : Prop :=
  match act with
  | .resolve _ true => ∀ p ∈ d.payments, p.status = .paid
  | _ => True

/-- The auction is settled, or waits to be settled again. -/
def SettledOnce (d : Dossier) : Prop :=
  d.row.status = .settled ∨ ∃ x ∈ d.disputes, x.isActive ∧ x.auctionStatusBefore = .settled

/-- What was settled is paid. -/
def PaidUp (d : Dossier) : Prop := SettledOnce d → d.paymentStatus = some .paid

section Payments
variable {view : View} {act : Action} {d d' : Dossier}

theorem paymentStatus_of {p : Payment} (h : d.payments = [p]) : d.paymentStatus = some p.status := by
  simp [Dossier.paymentStatus, h]

/-- The update of the only payment of an auction. -/
theorem onPayment_single {p : Payment} {pk : Nat} {f : Payment → Payment} (h : d.payments = [p])
    (hk : p.pk = pk) : (d.onPayment pk f).paymentStatus = some (f p).status := by
  simp [Dossier.paymentStatus, h, updateKey, hk]

theorem StillPending.single (h : SaleBook d) {payment : LoadedPayment}
    (hp : ∃ p ∈ d.payments, p.pk = payment.row.pk ∧ p.status = .pending) :
    ∃ p, d.payments = [p] ∧ p.pk = payment.row.pk ∧ p.status = .pending := by
  obtain ⟨p, hp, hk, hs⟩ := hp
  exact ⟨p, (h.single hp).1, hk, hs⟩

/-- A refund of a paid payment, whichever one it has read. -/
theorem Refunds.step {refund : Bool} (h : Refunds view refund d d') (hsale : SaleBook d)
    (hpaid : refund = true → ∀ p ∈ d.payments, p.status = .paid) :
    d'.paymentStatus = d.paymentStatus ∨
      (refund = true ∧ d.paymentStatus = some .paid ∧ d'.paymentStatus = some .refunded) := by
  unfold Refunds at h
  split at h
  · rename_i hrefund
    obtain ⟨_, q, actor, reason, _, _, _, rfl⟩ := h
    cases hpayments : d.payments with
    | nil => simp [Dossier.paymentStatus, hpayments, updateKey]
    | cons p rest =>
      have hp : p ∈ d.payments := by simp [hpayments]
      have hsingle := (hsale.single hp).1
      by_cases hk : p.pk = q.pk
      · refine .inr ⟨hrefund, ?_, onPayment_single hsingle hk⟩
        rw [paymentStatus_of hsingle, hpaid hrefund p hp]
      · simp [Dossier.paymentStatus, hsingle, updateKey, hk]
  · subst h
    exact .inl rfl

theorem returned_paymentStatus (x : Dispute) (refund : Bool) (actor : UserId)
    (reason restored : String) :
    (d.returned x refund actor reason restored).paymentStatus = d.paymentStatus := by
  simp only [Dossier.paymentStatus, returned_payments]

/-- A close bills the sale; the payment is due. -/
theorem owed_due {owed : List Payment} (hsale : SaleBook d) (live : d.row.status = .live)
    (owes : Owed (saleOf d.row (highestAccepted d.bids)) d.payments owed) :
    d.payments = [] ∧ (owed = [] ∨ ∃ pk price, owed = [Payment.due pk price]) := by
  obtain ⟨_, hnone⟩ := hsale.early (by rw [live]; rfl)
  refine ⟨hnone, ?_⟩
  unfold Owed at owes
  split at owes
  · rw [if_pos hnone] at owes
    obtain ⟨pk, rfl⟩ := owes
    exact .inr ⟨pk, _, rfl⟩
  · exact .inl owes

/-- What a move does to a payment that is as it was seen. -/
theorem Move.payment (hm : Move view act d d') (hsale : SaleBook d) (hpending : StillPending act d)
    (hpaid : StillPaid act d) : PaymentMove act d.paymentStatus d'.paymentStatus := by
  cases hm with
  | @close _ _ _ owed live owes =>
    change PaymentMove .close d.paymentStatus ((d.payments ++ owed).head?.map Payment.status)
    obtain ⟨hnone, hdue⟩ := owed_due hsale live owes
    have hbefore : d.paymentStatus = none := by simp [Dossier.paymentStatus, hnone]
    rw [hbefore, hnone, List.nil_append]
    rcases hdue with rfl | ⟨pk, price, rfl⟩
    · exact .stay rfl
    · exact .due
  | @pay _ row payment actor method reference notes t =>
    obtain ⟨p, hsingle, hk, hs⟩ := StillPending.single hsale hpending
    have hafter := onPayment_single (f := .paidWith actor method reference notes t) hsingle hk
    rw [paymentStatus_of hsingle, hs, hafter]
    exact .received
  | @settle _ payment actor method reference notes t reason =>
    obtain ⟨p, hsingle, hk, hs⟩ := StillPending.single hsale hpending
    have hafter := onPayment_single (f := .paidWith actor method reference notes t) hsingle hk
    rw [paymentStatus_of hsingle, hs]
    exact hafter ▸ .received
  | @fail _ payment actor reason =>
    obtain ⟨p, hsingle, hk, hs⟩ := StillPending.single hsale hpending
    have hafter := onPayment_single (f := .failedWith actor reason) hsingle hk
    rw [paymentStatus_of hsingle, hs, hafter]
    exact .missed
  | @resolve d d' x pk refund actor reason restored outcome notes t found active refunds closes =>
    have hafter : ((d'.returned x refund actor reason restored).onDispute pk
        (.resolvedWith actor outcome notes refund t)).paymentStatus = d'.paymentStatus :=
      returned_paymentStatus x refund actor reason restored
    have hstill : refund = true → ∀ p ∈ d.payments, p.status = .paid := by
      rintro rfl
      exact hpaid
    rw [hafter]
    rcases refunds.step hsale hstill with hsame | ⟨rfl, hbefore, hrefunded⟩
    · rw [hsame]
      exact .stay rfl
    · rw [hbefore, hrefunded]
      exact .refunded
  | _ => exact .stay rfl

theorem PaymentMove.step {s s' : Option PaymentStatus} (h : PaymentMove act s s') :
    PaymentStep s s' := by
  cases h with
  | received => exact .received
  | missed => exact .missed
  | refunded => exact .refunded
  | due => exact .due
  | stay => exact .stay

/-- Only a refund takes a received payment back. -/
theorem PaymentMove.paid_or_refunded {s' : Option PaymentStatus}
    (h : PaymentMove act (some .paid) s') : s' = some .paid ∨ ∃ pk, act = .resolve pk true := by
  cases h with
  | refunded => exact .inr ⟨_, rfl⟩
  | stay => exact .inl rfl

/-- Marking marks a payment nobody has marked, and nothing else marks one. -/
theorem PaymentMove.marked_once {s s' : Option PaymentStatus} (h : PaymentMove act s s') :
    (act.marks = true → marked s = false) ∧ marked s' = (marked s || act.marks) := by
  cases h with
  | stay aside => simp [aside]
  | _ => simp [marked, Action.marks]

/-- An auction is settled by a payment, or it was settled before. -/
theorem Move.settles (hm : Move view act d d') (hbook : DisputeBook d) (hs : SettledOnce d') :
    SettledOnce d ∨ ∃ payment, act = .pay payment := by
  cases hm with
  | aside | reschedule | bid | invalidate | fail => exact .inl hs
  | pay | settle => exact .inr ⟨_, rfl⟩
  | enter allowed early =>
    rcases hs with hs | hx
    · cases hs
      cases early
    · exact .inl (.inr hx)
  | activate | resume | start | close =>
    rcases hs with hs | hx
    · cases hs
    · exact .inl (.inr hx)
  | dispute disputable seen clear opened before =>
    rcases hs with hs | ⟨y, hy, ha, hb⟩
    · cases hs
    rcases List.mem_append.mp hy with hy | hy
    · exact .inl (.inr ⟨y, hy, ha, hb⟩)
    · rw [List.mem_singleton.mp hy, before] at hb
      exact .inl (.inl hb)
  | @review _ x pk actor found opened =>
    rcases hs with hs | ⟨y, hy, ha, hb⟩
    · exact .inl (.inl hs)
    obtain ⟨z, hz, rfl⟩ := mem_updateKey.mp hy
    obtain ⟨hx, rfl⟩ := find_key found
    by_cases hk : z.pk = x.pk
    · rw [if_pos hk] at hb
      have hzx : z = x := List.inj_on_of_nodup_map hbook.keys hz hx hk
      subst hzx
      exact .inl (.inr ⟨z, hz, by simp [Dispute.isActive, opened], hb⟩)
    · rw [if_neg hk] at ha hb
      exact .inl (.inr ⟨z, hz, ha, hb⟩)
  | @resolve _ d' x pk refund actor reason restored outcome notes t found active refunds closes =>
    obtain ⟨hx, rfl⟩ := find_key found
    rcases hs with hs | ⟨y, hy, ha, hb⟩
    · rw [Dossier.onDispute_row, returned_row, Auction.withStatus_status] at hs
      split at hs
      · rename_i hc
        exact .inl (.inr ⟨x, hx, active, hc.1⟩)
      · cases hs
    · rw [Dossier.onDispute_disputes, returned_disputes, refunds.frame.2.2.2] at hy
      obtain ⟨z, hz, rfl⟩ := mem_updateKey.mp hy
      by_cases hk : z.pk = x.pk
      · rw [if_pos hk] at ha
        cases ha
      · rw [if_neg hk] at ha hb
        exact .inl (.inr ⟨z, hz, ha, hb⟩)

/-- A refund leaves no dispute active. -/
theorem refund_closes {pk : Nat} (hm : Move view (.resolve pk true) d d')
    (hbook : DisputeBook d') : d'.row.status = .closed ∧ ∀ x ∈ d'.disputes, x.isActive = false := by
  have hstatus : d'.row.status = .closed := by
    cases hm with
    | resolve found active refunds closes =>
      rw [Dossier.onDispute_row, returned_row, Auction.withStatus_status, if_neg (by simp)]
  refine ⟨hstatus, fun x hx => ?_⟩
  by_contra ha
  rw [hbook.disputed hx (Bool.eq_true_of_not_eq_false ha)] at hstatus
  cases hstatus

theorem refund_unsettles {pk : Nat} (hm : Move view (.resolve pk true) d d')
    (hbook : DisputeBook d') : ¬ SettledOnce d' := by
  obtain ⟨hstatus, hquiet⟩ := refund_closes hm hbook
  rintro (hs | ⟨x, hx, ha, _⟩)
  · rw [hstatus] at hs
    cases hs
  · rw [hquiet x hx] at ha
    cases ha

/-- Moves on a payment that is as it was seen keep settled auctions paid. -/
theorem PaidUp.move (h : PaidUp d) (hsound : Sound d) (hm : Move view act d d')
    (hpending : StillPending act d) (hpaid : StillPaid act d) : PaidUp d' := by
  have hpayment := hm.payment hsound.sale hpending hpaid
  intro hsettled
  rcases hm.settles hsound.disputes hsettled with hbefore | ⟨payment, rfl⟩
  · have hwas := h hbefore
    rw [hwas] at hpayment
    rcases hpayment.paid_or_refunded with hpaid | ⟨pk, rfl⟩
    · exact hpaid
    · exact absurd hsettled (refund_unsettles hm (hsound.disputes.move hm))
  · generalize d.paymentStatus = s at hpayment
    generalize d'.paymentStatus = s' at hpayment
    cases hpayment with
    | received => rfl
    | stay aside => cases aside

theorem Fresh.paidUp (h : Fresh d) : PaidUp d := by
  obtain ⟨_, _, _, hdisputes⟩ := h.empty
  rintro (hs | ⟨x, hx, _⟩)
  · rw [h.draft] at hs
    cases hs
  · rw [hdisputes] at hx
    cases hx

/-- A payment of the auction that is no longer pending has been marked. -/
theorem marked_before (hmarks : act.marks = true) (hsale : SaleBook d)
    (hknown : ∀ payment, act = .pay payment ∨ act = .fail payment →
      ∃ p ∈ d.payments, p.pk = payment.row.pk)
    (hspoilt : ¬ StillPending act d) : marked d.paymentStatus = true := by
  have hstatus : ∀ payment, act = .pay payment ∨ act = .fail payment →
      ∃ p : Payment, d.paymentStatus = some p.status ∧ p.status ≠ .pending := by
    intro payment hact
    obtain ⟨p, hp, hk⟩ := hknown payment hact
    refine ⟨p, paymentStatus_of (hsale.single hp).1, fun hs => hspoilt ?_⟩
    rcases hact with rfl | rfl <;> exact ⟨p, hp, hk, hs⟩
  obtain ⟨payment, hact⟩ : ∃ payment, act = .pay payment ∨ act = .fail payment := by
    cases act <;> simp_all [Action.marks]
  obtain ⟨p, hp, hs⟩ := hstatus payment hact
  rw [hp]
  cases hps : p.status with
  | pending => exact absurd hps hs
  | paid | failed | refunded => rfl

end Payments

end MbararaAuction
