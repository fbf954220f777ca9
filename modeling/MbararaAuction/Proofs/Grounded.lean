import MbararaAuction.Machine.BidBook
import MbararaAuction.Proofs.Histories
import MbararaAuction.Proofs.Tasks

namespace MbararaAuction
open Transactions Queries

seal Tx.Exec

/-- The calls of the timers. -/
def Call.automatic : Call → Bool
  | sweepDue _ | closeEndedAuctions => true
  | _ => false

section Grounded
variable {db : Database} {call : Call} {m m' : engine.Moment db}

/-- At the moment `y` the due query of a closer returns this object. -/
def QueriedAt (y : engine.Moment db) (auction : LoadedAuction) : Prop :=
  (y.now.dossier auction.pk).row = auction.row ∧ auction.row.status = .live ∧
    auction.row.endTime ≤ y.rows.clock

/-- The object was the payment of its auction at the moment `y`. -/
def LoadedAt (y : engine.Moment db) (payment : LoadedPayment) : Prop :=
  payment.row ∈ (y.now.dossier payment.auction).payments

/-- The objects that a transaction of `call` works on were loaded before. -/
def Grounded (call : Call) (l : ServiceTx) (m : engine.Moment db) : Prop :=
  match l with
  | .closeAuction auction _ =>
    call.automatic = true → ∃ y : engine.Moment db, y.Leads m ∧ QueriedAt y auction
  | .markPaid payment _ _ _ _ | .savePaymentFailed payment _ _ =>
    ∃ y : engine.Moment db, y.Leads m ∧ LoadedAt y payment
  | _ => True

/-- Whatever the task of `call` still issues will be grounded. -/
abbrev Grounds (call : Call) (t : ServiceTask) (m : engine.Moment db) : Prop :=
  t.Issues Moment.rows Moment.Leads (Grounded call) m

/-- The loop of a closer after its due query. -/
theorem closing_grounds {actor : Option UserId} {catches : PyError → Bool}
    {next : Nat → ServiceTask} {t : Time} (ht : t ≤ m.rows.clock)
    (hnext : ∀ n (m' : engine.Moment db), Grounds call (next n) m') :
    Grounds call (closeEach actor catches (auctionsWhere m.rows (dueToClose t)) 0 next) m := by
  apply closeEach_issues Moment.Leads.refl fun _ _ _ => Moment.Leads.trans
  · intro auction ha m' hm' _
    refine ⟨m, hm', ?_⟩
    obtain ⟨_, hrow, hdue⟩ := mem_auctionsWhere.mp ha
    rw [dueToClose_iff] at hdue
    exact ⟨hrow, hdue.1, le_trans hdue.2 ht⟩
  · exact fun n m' _ => hnext n m'

theorem markFailed_grounds {payment : LoadedPayment} {actor : UserId} {reason : String}
    (h : LoadedAt m payment) : Grounds call (markFailedTask payment actor reason) m :=
  markFailed_issues Moment.Leads.refl (fun _ _ _ => Moment.Leads.trans) (fun _ hm' => ⟨m, hm', h⟩)
    (fun _ => trivial) (fun _ _ _ => trivial) fun _ _ => trivial

/-- Every call grounds its transactions. -/
theorem body_grounds (call : Call) (m : engine.Moment db) :
    Grounds call (engine.body call) m := by
  have htrans : ∀ x y z : engine.Moment db, x.Leads y → y.Leads z → x.Leads z :=
    fun _ _ _ => Moment.Leads.trans
  cases call with
  | sweepDue actor =>
    intro m₁ _ m₂ hm₂
    apply activateEach_issues Moment.Leads.refl htrans
    · exact fun _ _ _ _ _ _ _ _ => trivial
    · intro n m₃ hm₃ m₄ hm₄
      exact closing_grounds (leads_clock ((hm₂.trans hm₃).trans hm₄)) fun _ _ => trivial
  | closeEndedAuctions =>
    intro m₁ _ m₂ hm₂
    exact closing_grounds (leads_clock hm₂) fun _ _ => trivial
  | markPaid a pk selectRelated actor method reference notes =>
    exact (withPayment_loads a pk selectRelated).issues fun payment y _ hfits =>
      alone_issues (l := .markPaid payment actor method reference notes)
        fun m' hm' => ⟨y, hm', hfits.2.2.1⟩
  | markFailed a pk selectRelated actor reason =>
    exact (withPayment_loads a pk selectRelated).issues fun payment y _ hfits =>
      markFailed_grounds hfits.2.2.1
  | closeAuction a actor => exact fun m' _ => alone_issues fun _ _ hauto => (by cases hauto)
  | _ =>
    refine (body_may Moment.Leads.refl htrans _ m).mono fun l _ hl => ?_
    cases l <;> first | trivial | exact absurd hl (by simp [Call.May, Announces])

/-- A closer commits what was due when it asked for it. -/
theorem closer_queried {ev : SiteEvent} {auction : LoadedAuction} {actor : Option UserId}
    (hauto : call.automatic = true)
    (hcommit : m.now.commits ev = some (call, .closeAuction auction actor)) :
    ∃ y : engine.Moment db, y.Leads m ∧ QueriedAt y auction :=
  Run.issued body_grounds m hcommit hauto

/-- The payment that a commit marks was the payment of its auction. -/
theorem marked_loaded {ev : SiteEvent} {l : ServiceTx} {payment : LoadedPayment}
    (hcommit : m.now.commits ev = some (call, l))
    (hmark : l.action = .pay payment ∨ l.action = .fail payment) :
    l.target = some payment.auction ∧ ∃ y : engine.Moment db, y.Leads m ∧ LoadedAt y payment := by
  have hgrounded : Grounded call l m := Run.issued body_grounds m hcommit
  cases l <;> simp only [ServiceTx.action, reduceCtorEq, or_self] at hmark
  case markPaid payment' _ _ _ _ =>
    simp only [Action.pay.injEq, or_false] at hmark
    subst hmark
    exact ⟨rfl, hgrounded⟩
  case savePaymentFailed payment' _ _ =>
    simp only [Action.fail.injEq, false_or] at hmark
    subst hmark
    exact ⟨rfl, hgrounded⟩

end Grounded

end MbararaAuction
