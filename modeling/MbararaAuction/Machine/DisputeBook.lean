import MbararaAuction.Machine.BidBook

namespace MbararaAuction
open Queries

/-- The disputes of an auction agree with its status. -/
structure DisputeBook (d : Dossier) : Prop where
  active : d.disputes.countP Dispute.isActive = if d.row.status = .disputed then 1 else 0
  before : ∀ x ∈ d.disputes, x.isActive →
    x.auctionStatusBefore = .closed ∨ x.auctionStatusBefore = .settled
  keys : (d.disputes.map Dispute.pk).Nodup

section Book
variable {d d' : Dossier}

/-- An active dispute holds the auction in its status. -/
theorem DisputeBook.disputed (h : DisputeBook d) {x : Dispute} (hx : x ∈ d.disputes)
    (ha : x.isActive) : d.row.status = .disputed := by
  have hpos : 0 < d.disputes.countP Dispute.isActive := List.countP_pos_iff.mpr ⟨x, hx, ha⟩
  rw [h.active] at hpos
  by_contra hs
  simp [hs] at hpos

theorem DisputeBook.keep (h : DisputeBook d) (hdisputes : d'.disputes = d.disputes)
    (hstatus : d'.row.status = .disputed ↔ d.row.status = .disputed) : DisputeBook d' := by
  constructor
  · rw [hdisputes, h.active]
    simp only [hstatus]
  · rw [hdisputes]
    exact h.before
  · rw [hdisputes]
    exact h.keys

/-- Only the resolution leads out of the disputed status. -/
theorem not_disputed {s toStatus : Status} (h : toStatus ∈ allowedTransitions s)
    (hc : toStatus ≠ .closed) : s ≠ .disputed := by
  rintro rfl
  simp only [allowedTransitions, List.mem_singleton] at h
  exact hc h

/-- A new dispute is the only active one. -/
theorem DisputeBook.add {x : Dispute} {actor : Option UserId} {reason : String} (h : DisputeBook d)
    (hd : disputable d.row.status) (opened : x.status = .opened)
    (before : x.auctionStatusBefore = d.row.status) (fresh : x.pk ∉ d.disputes.map Dispute.pk) :
    DisputeBook ((d.addDispute x).entered .disputed actor reason) := by
  simp only [disputable, Bool.or_eq_true, beq_iff_eq] at hd
  have hactive : x.isActive := by simp [Dispute.isActive, opened]
  constructor
  · have hcount := h.active
    rw [if_neg (by rcases hd with hs | hs <;> simp [hs])] at hcount
    simp [hcount, hactive]
  · intro y hy ha
    rcases List.mem_append.mp hy with hy | hy
    · exact h.before y hy ha
    · rw [List.mem_singleton.mp hy, before]
      exact hd
  · simp only [Dossier.entered_disputes, Dossier.addDispute_disputes, List.map_append,
      List.map_cons, List.map_nil]
    exact List.nodup_append.mpr ⟨h.keys, List.nodup_singleton _, by
      intro y hy z hz hyz
      rw [List.mem_singleton.mp hz] at hyz
      exact fresh (hyz ▸ hy)⟩

/-- What a save under the key of `x` does to the book: it replaces `x`. -/
theorem DisputeBook.save {x : Dispute} {f : Dispute → Dispute} (h : DisputeBook d)
    (hx : x ∈ d.disputes) (ha : x.isActive) (hpk : ∀ y, (f y).pk = y.pk)
    (hbefore : ∀ y, (f y).auctionStatusBefore = y.auctionStatusBefore)
    (hstatus : d'.row.status = .disputed ↔ (f x).isActive)
    (hdisputes : d'.disputes = updateKey Dispute.pk x.pk f d.disputes) : DisputeBook d' := by
  have hcount := countP_updateKey (f := f) Dispute.isActive h.keys hx rfl
  have hone := h.active
  rw [if_pos (h.disputed hx ha)] at hone
  rw [hone, if_pos ha] at hcount
  constructor
  · rw [hdisputes]
    simp only [hstatus]
    omega
  · intro y hy hya
    rw [hdisputes] at hy
    obtain ⟨z, hz, rfl⟩ := mem_updateKey.mp hy
    by_cases hk : z.pk = x.pk
    · have hzx : z = x := List.inj_on_of_nodup_map h.keys hz hx hk
      rw [if_pos hk, hbefore, hzx]
      exact h.before x hx ha
    · rw [if_neg hk] at hya ⊢
      exact h.before z hz hya
  · rw [hdisputes, map_updateKey _ hpk]
    exact h.keys

/-- Every move keeps the book. -/
theorem DisputeBook.move {view : View} {act : Action} (h : DisputeBook d)
    (hm : Move view act d d') : DisputeBook d' := by
  cases hm with
  | aside | reschedule | bid | invalidate | pay | fail => exact h.keep rfl Iff.rfl
  | @enter d toStatus _ _ allowed early still reasoned =>
    have hs := not_disputed allowed (by rintro rfl; cases early)
    refine h.keep rfl ⟨?_, fun he => absurd he hs⟩
    rintro rfl
    cases early
  | activate allowed =>
    have hs := not_disputed allowed (by decide)
    exact h.keep rfl ⟨nofun, fun he => absurd he hs⟩
  | resume paused | start paused | close paused | settle _ paused =>
    refine h.keep rfl ⟨nofun, fun he => ?_⟩
    rw [paused] at he
    cases he
  | dispute disputable seen clear opened before fresh => exact h.add disputable opened before fresh
  | @review d x pk actor found opened =>
    obtain ⟨hx, rfl⟩ := find_key found
    have ha : x.isActive := by simp [Dispute.isActive, opened]
    exact h.save (f := .takenBy actor) hx ha (takenBy_pk actor) (fun _ => rfl)
      ⟨fun _ => rfl, fun _ => h.disputed hx ha⟩ rfl
  | @resolve d d' x pk refund actor reason restored outcome notes t found active refunds closes =>
    obtain ⟨hrow, _, _, hdisputes⟩ := refunds.frame
    obtain ⟨hx, rfl⟩ := find_key found
    refine h.save (f := .resolvedWith actor outcome notes refund t) hx active
      (resolvedWith_pk _ _ _ _ _) (fun _ => rfl) ?_ ?_
    · rw [Dossier.onDispute_row, returned_row]
      split <;> simp [Dispute.isActive, Dispute.resolvedWith]
    · rw [Dossier.onDispute_disputes, returned_disputes, hdisputes]

theorem Fresh.disputeBook (h : Fresh d) : DisputeBook d := by
  obtain ⟨_, _, _, hdisputes⟩ := h.empty
  constructor <;> simp [hdisputes, h.draft]

/-- No dispute is ever deleted. -/
theorem Move.keeps_keys {view : View} {act : Action} (hm : Move view act d d') :
    d.disputes.map Dispute.pk ⊆ d'.disputes.map Dispute.pk := by
  cases hm with
  | dispute =>
    rw [Dossier.entered_disputes, Dossier.addDispute_disputes, List.map_append]
    exact List.subset_append_left ..
  | @review _ _ pk actor =>
    rw [Dossier.onDispute_disputes, map_updateKey Dispute.pk (takenBy_pk actor)]
    exact List.Subset.refl _
  | resolve found active refunds closes =>
    rw [Dossier.onDispute_disputes, map_updateKey Dispute.pk (resolvedWith_pk _ _ _ _ _),
      returned_disputes, refunds.frame.2.2.2]
    exact List.Subset.refl _
  | _ => exact List.Subset.refl _

/-- No payment is ever deleted. -/
theorem Move.keeps_payments {view : View} {act : Action} (hm : Move view act d d') :
    d.payments.map Payment.pk ⊆ d'.payments.map Payment.pk := by
  have hsame : ∀ pk (f : Payment → Payment), (∀ p, (f p).pk = p.pk) →
      d.payments.map Payment.pk ⊆ (d.onPayment pk f).payments.map Payment.pk := by
    intro pk f hpk
    rw [Dossier.onPayment_payments, map_updateKey Payment.pk hpk]
    exact List.Subset.refl _
  cases hm with
  | close =>
    rw [Dossier.addPayments_payments, List.map_append]
    exact List.subset_append_left ..
  | pay | settle => exact hsame _ _ (paidWith_pk _ _ _ _ _)
  | fail => exact hsame _ _ (failedWith_pk _ _)
  | resolve found active refunds closes =>
    rw [Dossier.onDispute_payments, returned_payments]
    unfold Refunds at refunds
    split at refunds
    · obtain ⟨_, p, actor, reason, _, _, _, rfl⟩ := refunds
      exact hsame _ _ (refundedWith_pk _ _ _)
    · subst refunds
      exact List.Subset.refl _
  | _ => exact List.Subset.refl _

/-- A resolved dispute stays as it is. -/
theorem Move.resolved_stays {view : View} {act : Action} (h : DisputeBook d)
    (hm : Move view act d d') {x : Dispute} (hx : x ∈ d.disputes) (hr : x.status = .resolved) :
    x ∈ d'.disputes := by
  have hinactive : x.isActive = false := by simp [Dispute.isActive, hr]
  have hsave : ∀ {y : Dispute} {f : Dispute → Dispute}, y ∈ d.disputes → y.isActive →
      x ∈ updateKey Dispute.pk y.pk f d.disputes := by
    intro y f hy ha
    have hne : x.pk ≠ y.pk := by
      intro hk
      rw [List.inj_on_of_nodup_map h.keys hx hy hk, ha] at hinactive
      cases hinactive
    exact mem_updateKey.mpr ⟨x, hx, (if_neg hne).symm⟩
  cases hm with
  | dispute => exact List.mem_append_left _ hx
  | review found opened =>
    obtain ⟨hy, rfl⟩ := find_key found
    exact hsave hy (by simp [Dispute.isActive, opened])
  | resolve found active refunds closes =>
    obtain ⟨_, _, _, hdisputes⟩ := refunds.frame
    obtain ⟨hy, rfl⟩ := find_key found
    rw [Dossier.onDispute_disputes, returned_disputes, hdisputes]
    exact hsave hy active
  | _ => exact hx

end Book

end MbararaAuction
