import MbararaAuction.Machine.PaymentState

namespace MbararaAuction
open Queries

/-- A received payment settles its sale, unless a dispute is open. -/
def Settles (d : Dossier) : Prop :=
  d.paymentStatus = some .paid → (∀ x ∈ d.disputes, x.isActive = false) →
    d.row.status = .settled ∨ d.row.status = .completed

/-- The object that is marked shows what the tables hold. -/
def Action.Current (act : Action) (d : Dossier) : Prop :=
  match act with
  | .pay payment | .fail payment =>
    payment.row ∈ d.payments ∧ ∀ row, payment.cachedAuction = some row → row = d.row
  | _ => True

/-- A resolution without a refund of a dispute that was raised before the payment
was received. -/
def Withholds (act : Action) (d : Dossier) : Prop :=
  ∃ pk x, act = .resolve pk false ∧ d.disputes.find? (fun y => y.pk = pk) = some x ∧ x.isActive ∧
    x.auctionStatusBefore = .closed ∧ d.paymentStatus = some .paid

section Settlement
variable {act : Action} {d d' : Dossier} {t : Time}

theorem Settles.keep (h : Settles d) (hpayments : d'.payments = d.payments)
    (hdisputes : d'.disputes = d.disputes) (hstatus : d'.row.status = d.row.status) :
    Settles d' := by
  intro hpaid hquiet
  rw [Dossier.paymentStatus, hpayments] at hpaid
  rw [hdisputes] at hquiet
  rw [hstatus]
  exact h hpaid hquiet

theorem Settles.unpaid (h : d.paymentStatus ≠ some .paid) : Settles d := fun hpaid => absurd hpaid h

theorem Settles.disputed {x : Dispute} (hx : x ∈ d.disputes) (ha : x.isActive) : Settles d := by
  intro _ hquiet
  rw [hquiet x hx] at ha
  cases ha

/-- Before the close there is no payment. -/
theorem Settles.early (hsale : SaleBook d) (hstatus : d.row.status.beforeClose = true)
    (hpayments : d'.payments = d.payments) : Settles d' := by
  obtain ⟨_, hnone⟩ := hsale.early hstatus
  apply Settles.unpaid
  simp [Dossier.paymentStatus, hpayments, hnone]

/-- A payment received elsewhere than after the close finds the sale in dispute, or
settled already. -/
theorem Settles.receive {payment : LoadedPayment} {actor : UserId} {method reference notes : String}
    {row : Auction} (hsound : Sound d) (hcurrent : Action.Current (.pay payment) d)
    (shown : payment.Shows (.alone t)
      (d.onPayment payment.row.pk (.paidWith actor method reference notes t)) row)
    (elsewhere : row.status ≠ .closed) :
    Settles (d.onPayment payment.row.pk (.paidWith actor method reference notes t)) := by
  obtain ⟨hloaded, hcached⟩ := hcurrent
  have hrow : row = d.row := by
    unfold LoadedPayment.Shows at shown
    split at shown
    · rename_i cached hsome
      rw [shown]
      exact hcached cached hsome
    · obtain ⟨e, rfl, hrow⟩ := shown
      exact hrow
  rw [hrow] at elsewhere
  obtain ⟨hlate, _⟩ := hsound.sale.billed_iff.mp (List.ne_nil_of_mem hloaded)
  intro _ hquiet
  rcases late_iff.mp hlate with hs | hs | hs | hs
  · exact absurd hs elsewhere
  · exact .inl hs
  · exact .inr hs
  · have hactive := hsound.disputes.active
    rw [if_pos hs] at hactive
    obtain ⟨x, hx, ha⟩ := List.countP_pos_iff.mp (hactive ▸ Nat.one_pos)
    rw [hquiet x hx] at ha
    cases ha

/-- A resolution gives the money back, or settles what was settled before. -/
theorem Settles.resolve {x : Dispute} {pk : Nat} {refund : Bool} {actor : UserId}
    {reason restored notes : String} {outcome : Outcome} {t' : Time} (hsound : Sound d)
    (found : d.disputes.find? (fun y => y.pk = pk) = some x) (active : x.isActive)
    (refunds : Refunds (.alone t) refund d d') (hnot : ¬ Withholds (.resolve pk refund) d) :
    Settles ((d'.returned x refund actor reason restored).onDispute pk
      (.resolvedWith actor outcome notes refund t')) := by
  intro hpaid _
  change (d'.returned x refund actor reason restored).paymentStatus = some .paid at hpaid
  rw [returned_paymentStatus] at hpaid
  rw [Dossier.onDispute_row, returned_row, Auction.withStatus_status]
  unfold Refunds at refunds
  split at refunds
  · obtain ⟨e, p, _, _, rfl, hhead, hstatus, rfl⟩ := refunds
    have hp : p ∈ e.payments := List.mem_of_head? hhead
    rw [onPayment_single (hsound.sale.single hp).1 rfl] at hpaid
    cases hpaid
  · rename_i hno
    have hno := Bool.eq_false_of_not_eq_true hno
    subst refunds
    rcases hsound.disputes.before x (find_key found).1 active with hclosed | hsettled
    · subst hno
      exact absurd ⟨pk, x, rfl, found, active, hclosed, hpaid⟩ hnot
    · rw [if_pos ⟨hsettled, hno⟩]
      exact .inl rfl

/-- Undisturbed moves keep received payments settled, as long as nobody withholds. -/
theorem Settles.move (h : Settles d) (hsound : Sound d) (hm : Move (.alone t) act d d')
    (hcurrent : act.Current d) (hnot : ¬ Withholds act d) : Settles d' := by
  cases hm with
  | aside | reschedule | bid | invalidate => exact h.keep rfl rfl rfl
  | enter allowed early => exact .early hsound.sale (early_source allowed early) rfl
  | activate allowed => exact .early hsound.sale (early_source allowed rfl) rfl
  | resume status | start status => exact .early hsound.sale (by rw [status]; rfl) rfl
  | @close _ _ _ owed live owes =>
    obtain ⟨hnone, hdue⟩ := owed_due hsound.sale live owes
    apply Settles.unpaid
    change (d.payments ++ owed).head?.map Payment.status ≠ _
    rw [hnone, List.nil_append]
    rcases hdue with rfl | ⟨pk, price, rfl⟩ <;> simp [Payment.due]
  | pay pending shown elsewhere => exact .receive hsound hcurrent shown elsewhere
  | settle => exact fun _ _ => .inl rfl
  | @fail _ payment actor reason =>
    apply Settles.unpaid
    have hsingle := (hsound.sale.single hcurrent.1).1
    rw [onPayment_single (f := .failedWith actor reason) hsingle rfl]
    simp [Payment.failedWith]
  | @dispute _ _ x _ _ disputable seen clear opened =>
    refine .disputed (x := x) ?_ (by simp [Dispute.isActive, opened])
    simp
  | @review _ x pk actor found opened =>
    obtain ⟨hx, rfl⟩ := find_key found
    have hafter : x.takenBy actor ∈ updateKey Dispute.pk x.pk (.takenBy actor) d.disputes :=
      mem_updateKey.mpr ⟨x, hx, (if_pos rfl).symm⟩
    exact .disputed hafter rfl
  | resolve found active refunds closes => exact .resolve hsound found active refunds hnot

/-- To withhold is to leave a received payment unsettled. -/
theorem withheld {view : View} (hsound : Sound d) (hm : Move view act d d') (h : Withholds act d) :
    ¬ Settles d' := by
  obtain ⟨pk, x, rfl, found, active, before, hpaid⟩ := h
  have hbook := hsound.disputes.move hm
  have hafter : d'.row.status = .closed ∧ d'.paymentStatus = some .paid := by
    cases hm with
    | @resolve _ _ y _ _ actor reason restored outcome notes t found' active' refunds closes =>
      rw [found] at found'
      cases found'
      cases refunds
      constructor
      · rw [Dossier.onDispute_row, returned_row, Auction.withStatus_status, if_neg (by simp [before])]
      · change (d.returned x false actor reason restored).paymentStatus = some .paid
        rw [returned_paymentStatus, hpaid]
  have hquiet : ∀ y ∈ d'.disputes, y.isActive = false := by
    intro y hy
    by_contra ha
    have hdisputed := hbook.disputed hy (Bool.eq_true_of_not_eq_false ha)
    rw [hafter.1] at hdisputed
    cases hdisputed
  intro hsettles
  rcases hsettles hafter.2 hquiet with hs | hs
  · rw [hafter.1] at hs
    cases hs
  · rw [hafter.1] at hs
    cases hs

end Settlement

end MbararaAuction
