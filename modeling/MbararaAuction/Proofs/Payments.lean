import MbararaAuction.Machine.PaymentState
import MbararaAuction.Proofs.Grounded
import MbararaAuction.Proofs.Refunds
import MbararaAuction.Proofs.Sales
import MbararaAuction.Transactions.Returns

namespace MbararaAuction
open Transactions

seal Tx.Exec

/-- The transactions that mark the payment of the auction `a` paid or failed. -/
def marks (a : AuctionId) (l : ServiceTx) : Bool := l.target = some a ∧ l.action.marks

/-- The calls of `mark_paid` and `mark_failed` on it. -/
def Call.marks (a : AuctionId) : Call → Bool
  | markPaid b _ _ _ _ _ _ | markFailed b _ _ _ _ => b = a
  | _ => false

/-- Every marking finds the row as pending as the object its guard looked at. -/
def MarksPending (a : AuctionId) (_ : Call) (l : ServiceTx) (s : Database) : Prop :=
  l.target = some a → StillPending l.action (s.dossier a)

/-- The payment state machine, seen along a run. -/
structure PaymentsInOrder (a : AuctionId) (before : List (Site × SiteEvent)) (c : Site) : Prop where
  steps : (trail before c).IsChain (fun x y =>
    PaymentStep (x.dossier a).paymentStatus (y.dossier a).paymentStatus)
  returns : returnCount engine (Call.marks a) before ≤ 1
  failed : ∀ y ∈ trail before c, (y.dossier a).paymentStatus = some .failed →
    (y.dossier a).row.status ≠ .settled

section Returns
variable {a : AuctionId}

theorem markFailed_passes {payment : LoadedPayment} (h : payment.auction = a) (actor : UserId)
    (reason : String) : (markFailedTask payment actor reason).Passes (marks a) := by
  unfold markFailedTask
  split
  · trivial
  split
  · trivial
  exact ⟨.inl (by simp [marks, ServiceTx.target, ServiceTx.action, Action.marks, h]),
    fun _ => trivial⟩

/-- A marking call returns only after its commit. -/
theorem marking_passes {call : Call} (h : call.marks a = true) :
    (engine.body call).Passes (marks a) := by
  cases call <;> simp only [Call.marks, decide_eq_true_eq, Bool.false_eq_true] at h
  case markPaid b pk selectRelated actor method reference notes =>
    subst h
    intro s
    beta_reduce
    split
    · trivial
    · exact ⟨.inl (by simp [marks, ServiceTx.target, ServiceTx.action, Action.marks]),
        fun _ => trivial⟩
  case markFailed b pk selectRelated actor reason =>
    subst h
    intro s
    beta_reduce
    split
    · trivial
    · exact markFailed_passes (a := b) rfl actor reason

end Returns

section Runs
variable {db : Database} {before : List (Site × SiteEvent)} {c c' : Site} {a : AuctionId}
variable {ev : SiteEvent}

/-- Since `d` everything was resolved. -/
def ResolvedSince (d d' : Dossier) : Prop :=
  ∀ x ∈ d'.disputes, x.pk ∈ d.disputes.map Dispute.pk → x.status = .resolved

/-- What is proved of the runs in which nothing is marked twice. -/
structure Ordered (a : AuctionId) (before : List (Site × SiteEvent)) (c : Site) : Prop where
  steps : (trail before c).IsChain (fun x y =>
    PaymentStep (x.dossier a).paymentStatus (y.dossier a).paymentStatus)
  count : commitCount (marks a) before = if marked (c.dossier a).paymentStatus then 1 else 0
  paid : ∀ y ∈ trail before c, PaidUp (y.dossier a)
  refunds : ∀ y ∈ trail before c, (y.dossier a).paymentStatus = some .paid →
    (c.dossier a).paymentStatus = some .paid ∨ ResolvedSince (y.dossier a) (c.dossier a)

theorem Fresh.ordered (h : Fresh (db.dossier a)) : Ordered a [] (Config.initial db) := by
  have hnone : (db.dossier a).paymentStatus = none := by
    simp [Dossier.paymentStatus, h.empty.2.2.1]
  constructor
  · exact List.isChain_singleton _
  · change 0 = if marked (db.dossier a).paymentStatus = true then 1 else 0
    rw [hnone]
    rfl
  · intro y hy
    rw [List.mem_singleton.mp hy]
    exact h.paidUp
  · intro y hy hpaid
    rw [List.mem_singleton.mp hy] at hpaid
    exact .inl hpaid

/-- What was resolved before a move is resolved after it. -/
theorem ResolvedSince.move {view : View} {act : Action} {d d' d'' : Dossier}
    (h : ResolvedSince d d') (hkeys : d.disputes.map Dispute.pk ⊆ d'.disputes.map Dispute.pk)
    (hbook : DisputeBook d') (hm : Move view act d' d'') : ResolvedSince d d'' := by
  intro x hx hk
  obtain ⟨y, hy, hyx⟩ := List.mem_map.mp (hkeys hk)
  have hr : y.status = .resolved := by
    refine h y hy ?_
    rwa [hyx]
  have hstays := hm.resolved_stays hbook hy hr
  have hsame : y = x := List.inj_on_of_nodup_map (hbook.move hm).keys hstays hx hyx
  rwa [← hsame]

/-- A refund resolves whatever there was to resolve. -/
theorem refund_resolves {view : View} {pk : Nat} {d d' d'' : Dossier}
    (hm : Move view (.resolve pk true) d' d'') (hbook : DisputeBook d') : ResolvedSince d d'' := by
  intro x hx _
  have hquiet := (refund_closes hm (hbook.move hm)).2 x hx
  cases hstatus : x.status with
  | resolved => rfl
  | opened | underReview => simp [Dispute.isActive, hstatus] at hquiet

/-- A refund finds the payment still paid. -/
theorem refund_finds_paid (hrun : SiteRun db before c) (hfresh : Fresh (db.dossier a))
    (h : Ordered a before c) (hs : engine.step c ev = some c') {call : Call} {l : ServiceTx}
    (hc : c.commits ev = some (call, l)) (ht : l.target = some a) :
    StillPaid l.action (c.dossier a) := by
  have hm := commit_move hrun hs hc ht
  have hseen : Seen l ⟨before, c, hrun⟩ := Run.within prog_within ⟨before, c, hrun⟩ hc
  cases l with
  | resolveDispute b pk actor outcome notes refund =>
    cases refund with
    | false => trivial
    | true =>
      cases ht
      obtain ⟨y, hy, hkey, hpaid⟩ := hseen
      rcases h.refunds y.now hy.mem_trail hpaid with hstill | hresolved
      · intro p hp
        have hsingle := ((run_sound hrun hfresh).sale.single hp).1
        rw [paymentStatus_of hsingle] at hstill
        exact Option.some.inj hstill
      · generalize hd' : c'.dossier a = d' at hm
        cases hm with
        | resolve found active refunds closes =>
          obtain ⟨hx, rfl⟩ := Queries.find_key found
          have hr := hresolved _ hx hkey
          simp [Dispute.isActive, hr] at active
  | _ => trivial

theorem ordered_step (hrun : SiteRun db before c) (hfresh : Fresh (db.dossier a))
    (h : Ordered a before c) (hpending : c.Meets (MarksPending a) ev)
    (hs : engine.step c ev = some c') : Ordered a (before ++ [(c, ev)]) c' := by
  have hsound := run_sound hrun hfresh
  have hbefore := h.paid c mem_trail_last
  have hcount := h.count
  rcases step_dossier hrun hs a with ⟨hsame, hnone⟩ | ⟨call, l, hc, ht, hm⟩
  · constructor
    · refine chain_snoc.mpr ⟨h.steps, ?_⟩
      rw [hsame]
      exact .stay
    · have hmark : (c.commits ev).any (fun w => marks a w.2) = false := by
        cases hc : c.commits ev with
        | none => rfl
        | some w => simp [marks, hnone _ _ hc]
      rw [commitCount_snoc, hmark, hsame]
      exact hcount
    · intro y hy
      rcases mem_trail_snoc.mp hy with hy | rfl
      · exact h.paid y hy
      · rwa [hsame]
    · intro y hy hpaid
      rcases mem_trail_snoc.mp hy with hy | rfl
      · rw [hsame]
        exact h.refunds y hy hpaid
      · exact .inl hpaid
  · have hp := hpending call l hc ht
    have hr := refund_finds_paid hrun hfresh h hs hc ht
    have hpayment := hm.payment hsound.sale hp hr
    obtain ⟨hfirst, hmarked⟩ := hpayment.marked_once
    constructor
    · exact chain_snoc.mpr ⟨h.steps, hpayment.step⟩
    · have hmark : (c.commits ev).any (fun w => marks a w.2) = l.action.marks := by
        simp [hc, marks, ht]
      rw [commitCount_snoc, hmark, hcount, hmarked]
      cases hact : l.action.marks with
      | true => simp [hfirst hact]
      | false => simp
    · intro y hy
      rcases mem_trail_snoc.mp hy with hy | rfl
      · exact h.paid y hy
      · exact hbefore.move hsound hm hp hr
    · intro y hy hpaid
      rcases mem_trail_snoc.mp hy with hy | rfl
      · obtain ⟨y', rfl, hlater⟩ := Moment.of_trail ⟨before, c, hrun⟩ hy
        rcases h.refunds y'.now hy hpaid with hstill | hresolved
        · rw [hstill] at hpayment
          exact hpayment.paid_or_refunded.imp id fun ⟨pk, hact⟩ =>
            refund_resolves (hact ▸ hm) hsound.disputes
        · exact .inr (hresolved.move (leads_keys hlater) hsound.disputes hm)
      · exact .inl hpaid

theorem Ordered.once (h : Ordered a before c) : commitCount (marks a) before ≤ 1 := by
  rw [h.count]
  split <;> simp

theorem Ordered.inOrder (h : Ordered a before c) (hrun : SiteRun db before c) :
    PaymentsInOrder a before c := by
  constructor
  · exact h.steps
  · exact le_trans (hrun.returns_le fun _ hcall => marking_passes hcall) h.once
  · intro y hy hfailed hsettled
    rw [h.paid y hy (.inl hsettled)] at hfailed
    cases hfailed

/-- A payment that is marked is a payment of the auction to this day. -/
theorem marked_known (hrun : SiteRun db before c) (hfresh : Fresh (db.dossier a)) {call : Call}
    {l : ServiceTx} (hc : c.commits ev = some (call, l)) (ht : l.target = some a)
    {payment : LoadedPayment} (hact : l.action = .pay payment ∨ l.action = .fail payment) :
    ∃ p ∈ (c.dossier a).payments, p.pk = payment.row.pk := by
  obtain ⟨htarget, y, hlater, hloaded⟩ := marked_loaded (m := ⟨before, c, hrun⟩) hc hact
  rw [ht, Option.some.injEq] at htarget
  subst htarget
  have hbook := (run_sound y.run hfresh).sale
  obtain ⟨hlate, _⟩ := hbook.billed_iff.mp (List.ne_nil_of_mem hloaded)
  have hbill := (leads_same_sale hlater hfresh hlate).bill
  have hmem : payment.row.bill ∈ (c.dossier payment.auction).payments.map Payment.bill := by
    rw [hbill]
    exact List.mem_map_of_mem hloaded
  obtain ⟨p, hp, hb⟩ := List.mem_map.mp hmem
  exact ⟨p, hp, congrArg Prod.fst hb⟩

/-- A marking that finds the row no longer pending is the second one. -/
theorem second_marking (hrun : SiteRun db before c) (hfresh : Fresh (db.dossier a))
    (h : Ordered a before c) (hspoilt : ¬ c.Meets (MarksPending a) ev) :
    1 < commitCount (marks a) (before ++ [(c, ev)]) := by
  simp only [Config.Meets, MarksPending] at hspoilt
  push Not at hspoilt
  obtain ⟨call, l, hc, ht, hnot⟩ := hspoilt
  have hmarks : l.action.marks = true := by
    cases hact : l.action <;> simp_all [StillPending, Action.marks]
  have hmarked := marked_before hmarks (run_sound hrun hfresh).sale
    (fun payment hact => marked_known hrun hfresh hc ht hact) hnot
  rw [commitCount_snoc, h.count, hmarked]
  simp [hc, marks, ht, hmarks]

/-- The beginning of a run that kept the order kept it. -/
theorem PaymentsInOrder.init (h : PaymentsInOrder a (before ++ [(c, ev)]) c') :
    PaymentsInOrder a before c := by
  constructor
  · exact (chain_snoc.mp h.steps).1
  · have hreturns := h.returns
    rw [returnCount_snoc] at hreturns
    omega
  · exact fun y hy => h.failed y (mem_trail_snoc.mpr (.inl hy))

/-- The payment of an auction keeps its order in a run, and is marked at most once,
exactly when every marking finds it still pending. -/
theorem payments_in_order_iff (hfresh : Fresh (db.dossier a)) (hrun : SiteRun db before c) :
    PaymentsInOrder a before c ∧ commitCount (marks a) before ≤ 1 ↔ Met (MarksPending a) before := by
  refine hrun.exact (I := Ordered a)
    (G := fun before c => PaymentsInOrder a before c ∧ commitCount (marks a) before ≤ 1)
    ?_ ?_ ?_ ?_ ?_
  · exact hfresh.ordered
  · exact fun before c ev c' run h hpending hs => ordered_step run hfresh h hpending hs
  · exact fun before c run h => ⟨h.inOrder run, h.once⟩
  · intro before c ev c' ⟨horder, honce⟩
    rw [commitCount_snoc] at honce
    exact ⟨horder.init, by omega⟩
  · intro before c ev c' run h hspoilt hs ⟨_, honce⟩
    exact absurd honce (not_le.mpr (second_marking run hfresh h hspoilt))

end Runs

/-- A payment that is received and nothing else. -/
theorem payments_in_order_sample : ∃ m : engine.Moment sampleDatabase,
    (m.now.dossier 0).paymentStatus = some .paid ∧
    (PaymentsInOrder 0 m.past m.now ∧ commitCount (marks 0) m.past ≤ 1 ↔
      Met (MarksPending 0) m.past) := by
  obtain ⟨m, hm⟩ := served_moment sampleDatabase
    (opening ++ [.call (.placeBid 0 2 (.int 700000)), .call (.closeAuction 0 none),
      .call (.markPaid 0 4 false 0 "CASH" "" "")])
    (fun w => (w.db.dossier 0).paymentStatus == some .paid) (by decide +kernel)
  rw [beq_iff_eq] at hm
  exact ⟨m, hm, payments_in_order_iff sample_fresh m.run⟩

/-- Two processes hold the pending payment; one marks it paid, then the other failed. -/
def markedTwice : List SiteEvent :=
  biddingOpens ++ [.call 3 (.placeBid 0 2 (.int 700000))] ++ moves 3 17 ++
    [.call 4 (.closeAuction 0 none)] ++ moves 4 24 ++
    [.call 5 (.markFailed 0 4 false 0 "No money")] ++ moves 5 1 ++
    [.call 6 (.markPaid 0 4 false 0 "CASH" "" "")] ++ moves 6 19 ++ moves 5 14

/-- The payment of a settled auction is marked failed. -/
theorem settled_auction_marked_failed : ¬ ∀ (db : Database) (a : AuctionId) (m : engine.Moment db),
    Fresh (db.dossier a) → PaymentsInOrder a m.past m.now := by
  intro hall
  obtain ⟨m, hq⟩ := scheduled_moment engine sampleDatabase markedTwice
    (fun c => (c.dossier 0).paymentStatus == some .failed &&
      (c.dossier 0).row.status == .settled) (by decide +kernel)
  simp only [Bool.and_eq_true, beq_iff_eq] at hq
  obtain ⟨hfailed, hsettled⟩ := hq
  have horder := hall sampleDatabase 0 m sample_fresh
  exact horder.failed m.now mem_trail_last hfailed hsettled

end MbararaAuction
