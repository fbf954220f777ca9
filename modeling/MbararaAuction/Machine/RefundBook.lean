import MbararaAuction.Machine.Settlement

namespace MbararaAuction
open Queries

/-- A refund is the work of one resolved dispute, and of no more. -/
structure RefundBook (d : Dossier) : Prop where
  count : d.disputes.countP Dispute.refunded = if d.paymentStatus = some .refunded then 1 else 0
  resolved : ∀ x ∈ d.disputes, x.refunded → x.status = .resolved

/-- The payment was given back, or never came. -/
def lost : Option PaymentStatus → Bool
  | some .refunded | some .failed => true
  | none | some .pending | some .paid => false

/-- The money side of an auction is accounted for. -/
structure Accounted (d : Dossier) : Prop where
  sound : Sound d
  paid : PaidUp d
  refunds : RefundBook d

section Book
variable {act : Action} {d d' : Dossier} {t : Time}

theorem RefundBook.keep (h : RefundBook d) (hdisputes : d'.disputes = d.disputes)
    (hstatus : d'.paymentStatus = some .refunded ↔ d.paymentStatus = some .refunded) :
    RefundBook d' := by
  constructor
  · rw [hdisputes, h.count]
    simp only [hstatus]
  · rw [hdisputes]
    exact h.resolved

/-- An active dispute has not refunded anything. -/
theorem RefundBook.unrefunded (h : RefundBook d) {x : Dispute} (hx : x ∈ d.disputes)
    (ha : x.isActive) : x.refunded = false := by
  by_contra hr
  have hs := h.resolved x hx (Bool.eq_true_of_not_eq_false hr)
  simp [Dispute.isActive, hs] at ha

/-- A save under the key of an active dispute `x`. -/
theorem RefundBook.save {x : Dispute} {f : Dispute → Dispute} (h : RefundBook d)
    (hbook : DisputeBook d) (hx : x ∈ d.disputes) (ha : x.isActive)
    (hf : (f x).refunded → (f x).status = .resolved)
    (hdisputes : d'.disputes = updateKey Dispute.pk x.pk f d.disputes)
    (hcount : (if d'.paymentStatus = some .refunded then 1 else 0) =
      (if d.paymentStatus = some .refunded then 1 else 0) + if (f x).refunded then 1 else 0) :
    RefundBook d' := by
  have hnot := h.unrefunded hx ha
  have hold := h.count
  have hnew := countP_updateKey (f := f) Dispute.refunded hbook.keys hx rfl
  rw [hnot, if_neg (by decide)] at hnew
  constructor
  · rw [hdisputes, hcount, ← hold]
    omega
  · intro y hy hr
    rw [hdisputes] at hy
    obtain ⟨z, hz, rfl⟩ := mem_updateKey.mp hy
    by_cases hk : z.pk = x.pk
    · have hzx : z = x := List.inj_on_of_nodup_map hbook.keys hz hx hk
      subst hzx
      rw [if_pos rfl] at hr ⊢
      exact hf hr
    · rw [if_neg hk] at hr ⊢
      exact h.resolved z hz hr

/-- An undisturbed refund gives back a payment that was received. -/
theorem Refunds.gives_back (h : Refunds (.alone t) true d d') (hsale : SaleBook d) :
    d.paymentStatus = some .paid ∧ d'.paymentStatus = some .refunded := by
  simp only [Refunds, ↓reduceIte] at h
  obtain ⟨e, p, actor, reason, rfl, hhead, hpaid, rfl⟩ := h
  have hsingle := (hsale.single (List.mem_of_head? hhead)).1
  refine ⟨?_, onPayment_single hsingle rfl⟩
  rw [paymentStatus_of hsingle, hpaid]

/-- Nobody else refunds, and a refund that nobody disturbs finds the payment paid. -/
theorem Move.still_paid (hm : Move (.alone t) act d d') (hsale : SaleBook d) : StillPaid act d := by
  cases hm with
  | @resolve _ _ _ _ refund _ _ _ _ _ _ _ _ refunds _ =>
    cases refund with
    | false => trivial
    | true =>
      intro p hp
      have hpaid := (refunds.gives_back hsale).1
      rw [paymentStatus_of (hsale.single hp).1] at hpaid
      exact Option.some.inj hpaid
  | _ => trivial

/-- A move that resolves nothing makes no refund and takes none back. -/
theorem PaymentMove.same_refunded {s s' : Option PaymentStatus} (h : PaymentMove act s s')
    (hact : ∀ pk, act ≠ .resolve pk true) : s' = some .refunded ↔ s = some .refunded := by
  cases h with
  | refunded => exact absurd rfl (hact _)
  | stay => exact Iff.rfl
  | received | missed | due => exact ⟨nofun, nofun⟩

/-- What is lost stays lost. -/
theorem PaymentMove.lost {s s' : Option PaymentStatus} (h : PaymentMove act s s')
    (hlost : lost s = true) : s' = s := by
  cases h with
  | stay => rfl
  | _ => cases hlost

/-- Every move that finds the payment as it was seen keeps the book. -/
theorem RefundBook.move (h : RefundBook d) (hsound : Sound d) (hm : Move (.alone t) act d d')
    (hpending : StillPending act d) : RefundBook d' := by
  have hpayment := hm.payment hsound.sale hpending (hm.still_paid hsound.sale)
  cases hm with
  | @dispute _ e x actor reason disputable seen clear opened before fresh unrefunded =>
    have hold := h.count
    constructor
    · change (d.disputes ++ [x]).countP Dispute.refunded =
        if d.paymentStatus = some .refunded then 1 else 0
      simp [unrefunded, hold]
    · intro y hy hr
      rcases List.mem_append.mp hy with hy | hy
      · exact h.resolved y hy hr
      · rw [List.mem_singleton.mp hy, unrefunded] at hr
        cases hr
  | @review _ x pk actor found opened =>
    obtain ⟨hx, rfl⟩ := find_key found
    have ha : x.isActive := by simp [Dispute.isActive, opened]
    have hnot : (x.takenBy actor).refunded = false := h.unrefunded (x := x) hx ha
    refine h.save hsound.disputes hx ha (f := .takenBy actor) ?_ rfl ?_
    · intro hr
      rw [hnot] at hr
      cases hr
    · rw [hnot]
      rfl
  | @resolve _ d' x pk refund actor reason restored outcome notes t' found active refunds closes =>
    obtain ⟨hx, rfl⟩ := find_key found
    refine h.save hsound.disputes hx active (f := .resolvedWith actor outcome notes refund t')
      (fun _ => rfl) ?_ ?_
    · rw [Dossier.onDispute_disputes, returned_disputes, refunds.frame.2.2.2]
    · change (if (d'.returned x refund actor reason restored).paymentStatus = some .refunded
        then 1 else 0) = (if d.paymentStatus = some .refunded then 1 else 0) + if refund then 1 else 0
      rw [returned_paymentStatus]
      cases refund with
      | false =>
        cases refunds
        rfl
      | true =>
        obtain ⟨hbefore, hafter⟩ := refunds.gives_back hsound.sale
        rw [hbefore, hafter]
        rfl
  | _ => exact h.keep rfl (hpayment.same_refunded fun _ => by simp)

theorem Fresh.refundBook (h : Fresh d) : RefundBook d := by
  obtain ⟨_, _, hpayments, hdisputes⟩ := h.empty
  constructor <;> simp [hdisputes, hpayments, Dossier.paymentStatus]

theorem Fresh.accounted (h : Fresh d) : Accounted d := ⟨h.sound, h.paidUp, h.refundBook⟩

/-- Undisturbed moves on a payment that is as it was seen keep the account. -/
theorem Accounted.move (h : Accounted d) (hm : Move (.alone t) act d d')
    (hpending : StillPending act d) :
    Accounted d' ∧ PaymentMove act d.paymentStatus d'.paymentStatus := by
  have hstill := hm.still_paid h.sound.sale
  exact ⟨⟨h.sound.move hm, h.paid.move h.sound hm hpending hstill,
    h.refunds.move h.sound hm hpending⟩, hm.payment h.sound.sale hpending hstill⟩

/-- A settled sale is paid for, as long as the account is in order. -/
theorem Accounted.not_settled (h : Accounted d) (hlost : lost d.paymentStatus = true) :
    d.row.status ≠ .settled := by
  intro hs
  rw [h.paid (.inl hs)] at hlost
  cases hlost

end Book

end MbararaAuction
