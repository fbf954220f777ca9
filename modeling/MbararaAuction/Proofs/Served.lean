import MbararaAuction.Machine.Settlement
import MbararaAuction.Proofs.Histories
import MbararaAuction.Proofs.Tasks

namespace MbararaAuction
open Transactions

seal Tx.Exec

/-- Requests served one after another, each to its end, beginning with the rows `db`. -/
abbrev Served (db : Database) : List (World Database Nat × Request Call Outside) →
    World Database Nat → Prop := Run engine.serve ⟨db, 0, []⟩

/-- Requests that can be served lead to a state. -/
theorem served_state (db : Database) (requests : List (Request Call Outside))
    (Q : World Database Nat → Bool) (h : (play engine.serve ⟨db, 0, []⟩ requests).any Q = true) :
    ∃ before w, Served db before w ∧ Q w = true := play_reaches h

/-- The transaction neither marks a payment nor resolves a dispute. -/
def ServiceTx.Plain (l : ServiceTx) : Prop :=
  l.action.marks = false ∧ ∀ pk refund, l.action ≠ .resolve pk refund

/-- The calls whose transactions are all plain. -/
def Call.plain : Call → Bool
  | markPaid _ _ _ _ _ _ _ | markFailed _ _ _ _ _ | resolveDispute _ _ _ _ _ _ => false
  | _ => true

/-- The transactions of the other calls are plain. -/
theorem body_plain {call : Call} (h : call.plain = true) (s : Database) :
    (engine.body call).Issues id (fun _ _ => True) (fun l _ => l.Plain) s := by
  refine (body_may (fun _ => trivial) (fun _ _ _ _ _ => trivial) call s).mono fun l _ hl => ?_
  cases l with
  | markPaid | savePaymentFailed | resolveDispute =>
    cases call <;> simp_all [Call.May, Announces, Call.plain]
  | _ => exact ⟨rfl, fun _ _ => by simp [ServiceTx.action]⟩

/-- What a transaction finds that a call issues when it is served alone, beginning
with the rows `first`. -/
def Attended (call : Call) (first : Database) (l : ServiceTx) (s : Database) : Prop :=
  match l with
  | .markPaid payment _ _ _ _ => payment.Fits s
  | .savePaymentFailed payment _ _ => payment.Fits s ∧ payment.row.status = .pending
  | .resolveDispute a pk actor outcome notes refund =>
    call = .resolveDispute a pk actor outcome notes refund ∧ s = first
  | _ => True

section Attended
variable {call : Call} {first s : Database} {l : ServiceTx}

theorem ServiceTx.Plain.attended (h : l.Plain) : Attended call first l s := by
  obtain ⟨hmarks, hresolve⟩ := h
  cases l with
  | markPaid | savePaymentFailed => cases hmarks
  | resolveDispute => exact absurd rfl (hresolve _ _)
  | _ => trivial

theorem alone_finds {P : ServiceTx → Database → Prop} (h : P l s) : l.alone.Finds engine P s :=
  ⟨h, fun _ _ _ => trivial, fun _ _ _ => trivial⟩

theorem Loads.finds {α : Type} {load : (α → ServiceTask) → ServiceTask}
    {fits : α → Database → Prop} {P : ServiceTx → Database → Prop} (h : Loads load fits)
    {f : α → ServiceTask} (hf : ∀ x, fits x s → (f x).Finds engine P s) :
    (load f).Finds engine P s := by
  obtain ⟨rest, hload, hrest⟩ := h.reads f
  rw [hload]
  change (rest s).Finds engine P s
  rcases hrest s with hnone | ⟨x, hx, hsome⟩
  · rw [hnone]
    trivial
  · rw [hsome]
    exact hf x hx

theorem markFailed_attended {payment : LoadedPayment} (h : payment.Fits s) (actor : UserId)
    (reason : String) : (markFailedTask payment actor reason).Finds engine (Attended call first) s := by
  have hfinish : ∀ (auction : Auction) (s' : Database), (notifyTask
      (paymentFailedNotice payment.auction auction payment.row.pk reason)
      (.done (.payment (payment.row.failedWith actor reason)))).Finds engine
        (Attended call first) s' :=
    fun _ _ => Task.Issues.finds (notifyTask_issues (fun _ => trivial) (fun _ _ _ _ _ => trivial)
      (fun _ _ => trivial) (fun _ _ => trivial) fun _ _ => trivial)
  unfold markFailedTask
  split
  · trivial
  split
  · trivial
  rename_i hpending
  refine ⟨⟨h, not_not.mp hpending⟩, fun _ s' _ => ⟨trivial, fun _ s'' _ => ?_, fun _ _ _ => trivial⟩,
    fun _ _ _ => trivial⟩
  split
  · exact hfinish _ s''
  · exact hfinish _ s''

/-- Nothing comes between a request and what it works on. -/
theorem body_attended (call : Call) (s : Database) :
    (engine.body call).Finds engine (Attended call s) s := by
  cases hplain : call.plain with
  | true =>
    exact Task.Issues.finds ((body_plain hplain s).mono fun _ _ hl => hl.attended)
  | false =>
    cases call <;> simp only [Call.plain, Bool.true_eq_false] at hplain
    case markPaid a pk selectRelated actor method reference notes =>
      exact (withPayment_loads a pk selectRelated).finds fun payment h =>
        alone_finds (l := .markPaid payment actor method reference notes) h.2.2
    case markFailed a pk selectRelated actor reason =>
      exact (withPayment_loads a pk selectRelated).finds fun payment h =>
        markFailed_attended h.2.2 actor reason
    case resolveDispute => exact alone_finds ⟨rfl, rfl⟩

variable {a : AuctionId} {d : Dossier}

/-- What is marked paid or failed is what the tables hold. -/
theorem Attended.current (h : Attended call first l s) (ht : l.target = some a) :
    l.action.Current (s.dossier a) := by
  cases l with
  | markPaid payment actor method reference notes =>
    cases ht
    exact h
  | savePaymentFailed payment actor reason =>
    cases ht
    exact h.1
  | _ => trivial

/-- A payment that is marked is pending. -/
theorem Attended.still_pending {view : View} (h : Attended call first l s) (ht : l.target = some a)
    (hm : Move view l.action (s.dossier a) d) : StillPending l.action (s.dossier a) := by
  cases l with
  | markPaid payment actor method reference notes =>
    cases ht
    cases hm with
    | pay pending | settle pending => exact ⟨payment.row, h.1, rfl, pending⟩
  | savePaymentFailed payment actor reason =>
    cases ht
    exact ⟨payment.row, h.1.1, rfl, h.2⟩
  | _ => trivial

end Attended

end MbararaAuction
