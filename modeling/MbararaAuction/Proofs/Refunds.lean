import MbararaAuction.Machine.PaymentState
import MbararaAuction.Proofs.Histories
import MbararaAuction.Transactions.Within

namespace MbararaAuction
open Transactions

seal Tx.Exec Tx.Within

section Refunds
variable {db : Database} {m : engine.Moment db} {a : AuctionId} {pk : Nat}

/-- Somewhere on the way the payment was paid, and the dispute was there. -/
def SeenPaid (a : AuctionId) (pk : Nat) (m : engine.Moment db) : Prop :=
  ∃ y : engine.Moment db, y.Leads m ∧ pk ∈ (y.now.dossier a).disputes.map Dispute.pk ∧
    (y.now.dossier a).paymentStatus = some .paid

theorem SeenPaid.later {m' : engine.Moment db} (h : SeenPaid a pk m) (hm : m.Leads m') :
    SeenPaid a pk m' := by
  obtain ⟨y, hy, hseen⟩ := h
  exact ⟨y, hy.trans hm, hseen⟩

/-- What the body of a transaction has seen before it commits. -/
def Seen (l : ServiceTx) (m : engine.Moment db) : Prop :=
  match l with
  | .resolveDispute a pk _ _ _ true => SeenPaid a pk m
  | _ => True

theorem leads_keys {m m' : engine.Moment db} (h : m.Leads m') :
    (m.now.dossier a).disputes.map Dispute.pk ⊆ (m'.now.dossier a).disputes.map Dispute.pk :=
  leads_dossier (I := fun _ => True)
    (R := fun d d' => d.disputes.map Dispute.pk ⊆ d'.disputes.map Dispute.pk) h
    (fun _ => List.Subset.refl _) List.Subset.trans (fun _ => trivial)
    (fun _ _ _ _ hm => hm.keeps_keys)

/-- A refund is recorded only for a payment that was seen paid. -/
theorem refundFor_within (hkey : pk ∈ (m.now.dossier a).disputes.map Dispute.pk) (actor : UserId)
    (notes : String) : (refundFor a pk actor notes).Within Moment.rows Moment.Leads id m
      fun _ m' _ => SeenPaid a pk m' := by
  unfold refundFor
  refine Tx.Within.bind .refl (within_glance fun m₁ hm₁ m₂ hm₂ => ?_)
  refine Tx.Within.bind .refl (within_require fun p hhead m₃ hm₃ => ?_)
  refine Tx.Within.bind .refl (within_refuse fun hpaid m₄ hm₄ => ?_)
  have hstatus : (m₁.now.dossier a).paymentStatus = some .paid := by
    have hsome : (m₁.now.dossier a).paymentStatus = some p.status := congrArg (Option.map _) hhead
    rw [hsome, not_not.mp hpaid]
  refine Tx.Within.of_later .trans fun _ m₅ _ hm₅ => ?_
  exact ⟨m₁, ((hm₂.trans hm₃).trans hm₄).trans hm₅, leads_keys hm₁ hkey, hstatus⟩

theorem lockedDispute_within {α : Type} {f : Dispute → Prog α}
    {post : (Database → Database) → engine.Moment db → α → Prop}
    (h : ∀ x (m' : engine.Moment db), m.Leads m' →
      (m'.now.dossier a).disputes.find? (fun y => y.pk = pk) = some x →
      (f x).Within Moment.rows Moment.Leads id m' post) :
    (lockedDispute a pk >>= f).Within Moment.rows Moment.Leads id m post := by
  unfold lockedDispute
  refine Tx.Within.bind .refl (Tx.Within.bind .refl (within_acquire fun m₁ hm₁ => ?_))
  refine Tx.Within.bind .refl (within_query fun m₂ hm₂ m₃ hm₃ => ?_)
  refine within_require fun x hfound m₄ hm₄ => ?_
  exact (h x m₂ (hm₁.trans hm₂) hfound).delay .trans (hm₃.trans hm₄)

/-- A resolution with a refund saves nothing about the dispute before the payment was seen
paid. -/
theorem resolveDispute_within (actor : UserId) (outcome notes : String) :
    (resolveDispute a pk actor outcome notes true).Within Moment.rows Moment.Leads id m
      fun _ m' _ => SeenPaid a pk m' := by
  refine Tx.Within.bind .refl (within_require fun outcome _ m₁ _ => ?_)
  refine Tx.Within.bind .refl (within_refuse fun _ m₂ _ => ?_)
  refine lockedDispute_within fun x m₃ _ hfound => ?_
  refine Tx.Within.bind .refl (within_refuse fun _ m₄ hm₄ => ?_)
  refine Tx.Within.bind .refl (within_glance fun m₅ hm₅ m₆ hm₆ => ?_)
  obtain ⟨hx, rfl⟩ := Queries.find_key hfound
  have hkey := leads_keys ((hm₄.trans hm₅).trans hm₆) (List.mem_map_of_mem hx)
  refine Tx.Within.bind .refl (within_when (fun _ => ?_) nofun)
  refine (refundFor_within hkey actor (strip notes)).mono ?_
  intro work m₇ _ hseen
  exact Tx.Within.of_later .trans fun _ m₈ _ hm₈ => hseen.later hm₈

theorem prog_within (l : ServiceTx) (m : engine.Moment db) :
    (engine.prog l).Within Moment.rows Moment.Leads id m fun _ m' _ => Seen l m' := by
  have hother : (∀ m' : engine.Moment db, Seen l m') →
      (engine.prog l).Within Moment.rows Moment.Leads id m fun _ m' _ => Seen l m' :=
    fun h => Tx.Within.of_later .trans fun _ m' _ _ => h m'
  cases l with
  | resolveDispute a pk actor outcome notes refund =>
    cases refund with
    | false => exact hother fun _ => trivial
    | true =>
      have hbody : (resolveDispute a pk actor outcome notes true).Within Moment.rows Moment.Leads
          id m fun _ m' _ => SeenPaid a pk m' := resolveDispute_within actor outcome notes
      exact Tx.Within.map .refl (hbody.mono fun _ _ _ hseen _ hm => hseen.later hm)
  | _ =>
    have hseen := hother fun _ => trivial
    exact hseen

end Refunds

end MbararaAuction
