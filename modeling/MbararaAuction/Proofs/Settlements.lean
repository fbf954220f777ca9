import MbararaAuction.Proofs.Disputes
import MbararaAuction.Proofs.Served

namespace MbararaAuction
open Transactions

seal Tx.Exec

/-- The tables about one auction are in order, and its payment settles its sale. -/
structure InOrder (a : AuctionId) (s : Database) : Prop where
  sound : Sound (s.dossier a)
  settles : Settles (s.dossier a)

section Serving
variable {a : AuctionId} {s s' : Database} {l : ServiceTx} {r : Value}

/-- A transaction that runs alone on what it was given keeps the order. -/
theorem InOrder.commit (h : InOrder a s) (hx : (engine.prog l).Exec Exact s (.ok r) s')
    (hcurrent : l.target = some a → l.action.Current (s.dossier a))
    (hnot : l.target = some a → ¬ Withholds l.action (s.dossier a)) : InOrder a s' := by
  rcases service_dossier (fun b => alone_admits b s.clock) hx a with ⟨_, hsame⟩ | ⟨ht, hm⟩
  · constructor
    · rw [hsame]
      exact h.sound
    · rw [hsame]
      exact h.settles
  · exact ⟨h.sound.move hm, h.settles.move h.sound hm (hcurrent ht) (hnot ht)⟩

/-- The request resolves a dispute of the auction without a refund, and the payment
was received while it was open. -/
def Withheld (a : AuctionId) (w : World Database Nat) (request : Request Call Outside) : Prop :=
  ∃ pk actor outcome notes, request = .call (.resolveDispute a pk actor outcome notes false) ∧
    Outcome.ofValue outcome ≠ none ∧ strip notes ≠ "" ∧ Withholds (.resolve pk false) (w.db.dossier a)

section Resolution
variable {pk : Nat} {actor : UserId} {outcome notes : String} {refund : Bool}

theorem resolution_valid {x : Dispute}
    (hx : (resolveDispute a pk actor outcome notes refund).Exec Exact s (.ok x) s') :
    Outcome.ofValue outcome ≠ none ∧ strip notes ≠ "" := by
  simp only [resolveDispute, exec_require_bind, exec_refuse_bind, reduceCtorEq, false_and, and_false,
    false_or] at hx
  obtain ⟨result, hvalid, hnotes, _⟩ := hx
  exact ⟨by simp [hvalid], hnotes⟩

/-- Without a refund only bad arguments or a closed dispute refuse a resolution. -/
theorem resolution_done {e : PyError} (hbook : DisputeBook (s.dossier a))
    (houtcome : Outcome.ofValue outcome ≠ none) (hnotes : strip notes ≠ "")
    (hwithholds : Withholds (.resolve pk false) (s.dossier a)) :
    ¬ (resolveDispute a pk actor outcome notes false).Exec Exact s (.error e) s' := by
  intro hx
  obtain ⟨pk', x, hact, found, active, _⟩ := hwithholds
  cases hact
  cases resolveDispute_error hbook hx with
  | outcome invalid => exact houtcome invalid
  | notes blank => exact hnotes blank
  | missing absent =>
    rw [found] at absent
    cases absent
  | resolved found' inactive =>
    rw [found] at found'
    cases found'
    rw [active] at inactive
    cases inactive
  | unpaid asked => cases asked

end Resolution

end Serving

section Runs
variable {db : Database} {a : AuctionId} {before : List (World Database Nat × Request Call Outside)}
variable {w w' : World Database Nat} {request : Request Call Outside}

theorem served_step (h : InOrder a w.db) (hnot : ¬ Withheld a w request)
    (hs : engine.serve w request = some w') : InOrder a w'.db := by
  cases request with
  | outside v =>
    cases hs
    have hsame : (engine.outside v w.db).dossier a = w.db.dossier a :=
      congrFun (outside_dossier v w.db) a
    constructor
    · rw [hsame]
      exact h.sound
    · rw [hsame]
      exact h.settles
  | call call =>
    cases hs
    refine ((body_attended call w.db).ends ?_ h).run
    intro l s r s' hattended h hx
    apply h.commit hx hattended.current
    rintro ht ⟨pk, x, hact, hrest⟩
    -- Only the resolution itself withholds, and it finds the rows as the request did.
    cases l <;> simp only [ServiceTx.action, reduceCtorEq, Action.resolve.injEq] at hact
    case resolveDispute b pk' actor outcome notes refund =>
      obtain ⟨rfl, rfl⟩ := hattended
      obtain ⟨rfl, rfl⟩ := hact
      cases ht
      obtain ⟨_, hdone⟩ := exec_map_ok hx
      obtain ⟨houtcome, hnotes⟩ := resolution_valid hdone
      exact hnot ⟨pk', actor, outcome, notes, rfl, houtcome, hnotes, pk', x, rfl, hrest⟩

/-- A request that withholds leaves the payment unsettled. -/
theorem withheld_breaks (h : InOrder a w.db) (hwithheld : Withheld a w request)
    (hs : engine.serve w request = some w') : ¬ Settles (w'.db.dossier a) := by
  obtain ⟨pk, actor, outcome, notes, rfl, houtcome, hnotes, hwithholds⟩ := hwithheld
  cases hs
  have hends : (engine.body (.resolveDispute a pk actor outcome notes false)).Ends engine
      (fun s => ¬ Settles (s.dossier a)) w.db := by
    constructor
    · intro r s' hx
      rcases service_dossier (l := .resolveDispute a pk actor outcome notes false)
        (fun b => alone_admits b w.db.clock) hx a with ⟨hne, _⟩ | ⟨_, hm⟩
      · exact absurd rfl hne
      · exact withheld h.sound hm hwithholds
    · intro e s' hx
      have hdone := exec_then_pure_error hx
      exact absurd hdone (resolution_done h.sound.disputes houtcome hnotes hwithholds)
  exact hends.run

/-- A received payment settles its sale in every state that requests lead to, served
one after another, exactly when nobody withholds it. -/
theorem received_payments_settle_iff (hfresh : Fresh (db.dossier a)) (hrun : Served db before w) :
    (∀ y ∈ trail before w, Settles (y.db.dossier a)) ↔ ∀ x ∈ before, ¬ Withheld a x.1 x.2 := by
  refine hrun.exact (G := fun before w => ∀ y ∈ trail before w, Settles (y.db.dossier a))
    (I := fun before w => ∀ y ∈ trail before w, InOrder a y.db)
    (A := fun w request => ¬ Withheld a w request) ?_ ?_ ?_ ?_ ?_
  · intro y hy
    rw [List.mem_singleton.mp hy]
    refine ⟨hfresh.sound, .unpaid ?_⟩
    simp [Dossier.paymentStatus, hfresh.empty.2.2.1]
  · intro before w request w' _ h hnot hs y hy
    rcases mem_trail_snoc.mp hy with hy | rfl
    · exact h y hy
    · exact served_step (h w mem_trail_last) hnot hs
  · exact fun before w _ h y hy => (h y hy).settles
  · intro before w request w' hgood y hy
    exact hgood y (mem_trail_snoc.mpr (.inl hy))
  · intro before w request w' _ h hwithheld hs hgood
    exact withheld_breaks (h w mem_trail_last) (not_not.mp hwithheld) hs (hgood w' mem_trail_last)

end Runs

section Requests

/-- A sale that is paid before it is disputed. -/
theorem received_payments_settle_sample : ∃ before w, Served sampleDatabase before w ∧
    (w.db.dossier 0).paymentStatus = some .paid ∧
    ((∀ y ∈ trail before w, Settles (y.db.dossier 0)) ↔ ∀ x ∈ before, ¬ Withheld 0 x.1 x.2) := by
  obtain ⟨before, w, hrun, hq⟩ := served_state sampleDatabase
    (opening ++ [.call (.placeBid 0 2 (.int 700000)), .call (.closeAuction 0 none),
      .call (.markPaid 0 4 false 0 "CASH" "" ""),
      .call (.openDispute 0 2 "NOT_DELIVERED" "Nobody was there"),
      .call (.resolveDispute 0 5 0 "DISMISSED" "It was delivered" false)])
    (fun w => (w.db.dossier 0).paymentStatus == some .paid) (by decide +kernel)
  rw [beq_iff_eq] at hq
  exact ⟨before, w, hrun, hq, received_payments_settle_iff sample_fresh hrun⟩

/-- The payment is received while the dispute is open; the resolution without a refund
leaves the auction closed. -/
theorem paid_and_closed : ¬ ∀ (db : Database) (a : AuctionId)
    (before : List (World Database Nat × Request Call Outside)) (w : World Database Nat),
    Fresh (db.dossier a) → Served db before w → Settles (w.db.dossier a) := by
  intro hall
  obtain ⟨before, w, hrun, hq⟩ := served_state sampleDatabase
    (opening ++ [.call (.placeBid 0 2 (.int 700000)), .call (.closeAuction 0 none),
      .call (.openDispute 0 2 "NOT_DELIVERED" "Nobody was there"),
      .call (.markPaid 0 4 false 0 "CASH" "" ""),
      .call (.resolveDispute 0 5 0 "DISMISSED" "It was delivered" false)])
    (fun w => (w.db.dossier 0).paymentStatus == some .paid &&
      (w.db.dossier 0).disputes.all (fun x => !x.isActive) && (w.db.dossier 0).row.status == .closed)
    (by decide +kernel)
  simp only [Bool.and_eq_true, beq_iff_eq, List.all_eq_true, Bool.not_eq_true'] at hq
  obtain ⟨⟨hpaid, hquiet⟩, hclosed⟩ := hq
  rcases hall sampleDatabase 0 before w sample_fresh hrun hpaid hquiet with hs | hs
  · rw [hclosed] at hs
    cases hs
  · rw [hclosed] at hs
    cases hs

end Requests

end MbararaAuction
