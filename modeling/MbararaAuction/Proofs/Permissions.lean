import MbararaAuction.Machine.BidBook
import MbararaAuction.Proofs.Signatures
import MbararaAuction.Proofs.Website

namespace MbararaAuction
open Transactions

seal Tx.Exec

/-- The payment or the dispute that a call is about exists. -/
def Call.Located (s : Database) : Call → Prop
  | takeForReview a pk _ | resolveDispute a pk _ _ _ _ => ∃ d ∈ (s.dossier a).disputes, d.pk = pk
  | markPaid a pk _ _ _ _ _ | markFailed a pk _ _ _ => ∃ p ∈ (s.dossier a).payments, p.pk = pk
  | submitForReview _ _ | approve _ _ _ | reject _ _ _ | activateIfDue _ _ | startNow _ _
  | reschedule _ _ _ _ _ | pause _ _ _ | resume _ _ | cancelAuction _ _ _ | endNow _ _ _
  | sweepDue _ | closeEndedAuctions | activateScheduledAuctions | placeBid _ _ _
  | invalidateBid _ _ _ _ | closeAuction _ _ | openDispute _ _ _ _ | verifyProfile _ _ _ _
  | rejectProfile _ _ _ _ | suspendBidder _ _ _ _ | reactivateBidder _ _ _ _ => True

/-- A call is made in the name of the person whose request it serves, who was let in before,
and about a row that was found before. -/
structure Admitted {X : Type} (rows : X → Database) (later : X → X → Prop) (d : WebCall) (c : Call)
    (x : X) : Prop where
  named : ∀ u, c.signer = some u →
    (∃ request, d = .post (some u) request) ∧ ∃ y, later y x ∧ c.right.Asked (rows y) u
  located : ∃ y, later y x ∧ c.Located (rows y)

section Views
variable {X : Type} {rows : X → Database} {later : X → X → Prop} {x y : X}
variable {u : UserId} {c : Call} {session : Option UserId} {request : Post}

theorem Admitted.of_known (hsigner : c.signer = some u) (hknown : (rows y).Knows session u)
    (hlater : later y x) (hasked : c.right.Asked (rows y) u)
    (hlocated : ∃ z, later z x ∧ c.Located (rows z)) :
    Admitted rows later (.post session request) c x where
  named := by
    intro v hv
    obtain rfl := Option.some.inj (hsigner.symm.trans hv)
    rw [hknown.1]
    exact ⟨⟨request, rfl⟩, y, hlater, hasked⟩
  located := hlocated

/-- Staff make calls that only staff may make. -/
theorem Admitted.of_staff (hsigner : c.signer = some u) (hright : c.right = .staff)
    (hknown : (rows y).Knows session u) (hstaff : ((rows y).users u).isOfficerOrAdmin = true)
    (hlater : later y x) (hlocated : ∃ z, later z x ∧ c.Located (rows z)) :
    Admitted rows later (.post session request) c x := by
  refine .of_known hsigner hknown hlater ?_ hlocated
  rw [hright]
  exact ⟨hknown.2.1, hknown.2.2, hstaff⟩

variable (hrefl : ∀ x, later x x)
include hrefl

theorem action_admitted {a : AuctionId} {success : String} {run : UserId → Except PyError Call}
    (h : ∀ u c, run u = .ok c → c.signer = some u ∧ c.right = .staff ∧ ∀ s, c.Located s) :
    (actionView session a success run).Makes rows later
      (Admitted rows later (.post session request)) x := by
  apply makes_staffOrOfficerRequired
  intro u y _ hknown hstaff
  apply makes_getAuction
  intro z hz
  cases hrun : run u with
  | ok c =>
    obtain ⟨hsigner, hright, hlocated⟩ := h u c hrun
    exact makes_tryCall (.of_staff hsigner hright hknown hstaff hz ⟨z, hrefl z, hlocated _⟩)
      (fun _ _ => trivial) fun _ _ => trivial
  | error e =>
    dsimp only
    split <;> trivial

theorem verify_admitted {p : ProfileRef} {decision reason : String} :
    (verifyView p session decision reason).Makes rows later
      (Admitted rows later (.post session request)) x := by
  apply makes_staffOrOfficerRequired
  intro u y _ hknown hstaff z hz
  beta_reduce
  split
  · trivial
  · split
    · exact makes_tryCall (.of_staff rfl rfl hknown hstaff hz ⟨z, hrefl z, trivial⟩)
        (fun _ _ _ _ => trivial) fun _ _ => trivial
    · split
      · split
        · trivial
        · exact makes_tryCall (.of_staff rfl rfl hknown hstaff hz ⟨z, hrefl z, trivial⟩)
            (fun _ _ _ _ => trivial) fun _ _ => trivial
      · trivial

variable (htrans : ∀ {x y z}, later x y → later y z → later x z)
variable (hseller : ∀ {y z} a, later y z →
  ((rows z).dossier a).row.seller = ((rows y).dossier a).row.seller)

include hseller in
theorem submitListing_admitted {a : AuctionId} :
    (submitListingView session a).Makes rows later (Admitted rows later (.post session request)) x := by
  apply makes_testRequired
  intro u y _ hknown htest
  apply makes_getAuction
  intro z hz
  split
  · next haccess =>
    have hasked : (Right.seller a).Asked (rows y) u := by
      refine ⟨hknown.2.1, hknown.2.2, ?_⟩
      simp only [mayAccess, hseller a hz, Bool.or_eq_true, beq_iff_eq] at haccess htest ⊢
      tauto
    exact makes_tryCall (.of_known rfl hknown hz hasked ⟨z, hrefl z, trivial⟩)
      (fun _ _ => trivial) fun _ _ => trivial
  · trivial

theorem approveListing_admitted {a : AuctionId} {reason : String} :
    (approveListingView session a reason).Makes rows later
      (Admitted rows later (.post session request)) x := by
  apply makes_staffOrOfficerRequired
  intro u y _ hknown hstaff
  apply makes_getAuction
  intro z hz
  exact makes_tryCall (.of_staff rfl rfl hknown hstaff hz ⟨z, hrefl z, trivial⟩)
    (fun _ _ => trivial) fun _ _ => trivial

theorem rejectListing_admitted {a : AuctionId} {reason : String} :
    (rejectListingView session a reason).Makes rows later
      (Admitted rows later (.post session request)) x := by
  apply makes_staffOrOfficerRequired
  intro u y _ hknown hstaff
  apply makes_getAuction
  intro z hz
  split
  · trivial
  · exact makes_tryCall (.of_staff rfl rfl hknown hstaff hz ⟨z, hrefl z, trivial⟩)
      (fun _ _ => trivial) fun _ _ => trivial

theorem placeBid_admitted {a : AuctionId} {amount : String} :
    (placeBidView session a amount).Makes rows later
      (Admitted rows later (.post session request)) x := by
  apply makes_testRequired
  intro u y _ hknown htest
  apply makes_getAuction
  intro z hz
  have hasked : Right.bidder.Asked (rows y) u := by
    refine ⟨hknown.2.1, hknown.2.2, ?_⟩
    simpa only [Bool.or_eq_true, beq_iff_eq] using htest
  split
  · trivial
  · exact makes_tryCall (.of_known rfl hknown hz hasked ⟨z, hrefl z, trivial⟩)
      (fun _ _ => trivial) fun _ _ => trivial

theorem sweep_admitted :
    (sweepView session).Makes rows later (Admitted rows later (.post session request)) x := by
  apply makes_staffOrOfficerRequired
  intro u y _ hknown hstaff
  exact makes_tryCall (.of_staff rfl rfl hknown hstaff (hrefl y) ⟨y, hrefl y, trivial⟩)
    (fun _ _ => trivial) fun _ _ => trivial

theorem recordPaymentPaid_admitted {pk : Nat} {method reference notes : String} :
    (recordPaymentPaidView session pk method reference notes).Makes rows later
      (Admitted rows later (.post session request)) x := by
  apply makes_staffOrOfficerRequired
  intro u y _ hknown hstaff
  apply makes_getPayment
  intro a z hz hfound
  exact makes_tryCall (.of_staff rfl rfl hknown hstaff hz ⟨z, hrefl z, hfound⟩)
    (fun _ _ _ _ => trivial) fun _ _ => trivial

theorem recordPaymentFailed_admitted {pk : Nat} {reason : String} :
    (recordPaymentFailedView session pk reason).Makes rows later
      (Admitted rows later (.post session request)) x := by
  apply makes_staffOrOfficerRequired
  intro u y _ hknown hstaff
  apply makes_getPayment
  intro a z hz hfound
  split
  · trivial
  · exact makes_tryCall (.of_staff rfl rfl hknown hstaff hz ⟨z, hrefl z, hfound⟩)
      (fun _ _ _ _ => trivial) fun _ _ => trivial

include htrans in
theorem disputeCreate_admitted {a : AuctionId} {category description : String} :
    (disputeCreateView session a category description).Makes rows later
      (Admitted rows later (.post session request)) x := by
  apply makes_loginRequired
  intro u y _ hknown
  apply makes_getAuction
  intro z hz
  unfold askRaiseDispute
  split
  · trivial
  · intro v hv
    beta_reduce
    split
    · trivial
    · intro w hw
      beta_reduce
      split
      · split
        · next kind text _ _ =>
          have hlater : later y w := htrans hz (htrans hv hw)
          have hasked : (Right.party a).Asked (rows y) u := ⟨hknown.2.1, hknown.2.2, trivial⟩
          refine ⟨.of_known rfl hknown hlater hasked ⟨w, hrefl w, trivial⟩, fun out _ _ => ?_⟩
          beta_reduce
          split
          · trivial
          · trivial
          · split <;> trivial
        · trivial
      · trivial

theorem takeDispute_admitted {pk : Nat} :
    (takeDisputeView session pk).Makes rows later (Admitted rows later (.post session request)) x := by
  apply makes_staffOrOfficerRequired
  intro u y _ hknown hstaff
  apply makes_getDispute
  intro a z hz hfound
  exact makes_tryCall (.of_staff rfl rfl hknown hstaff hz ⟨z, hrefl z, hfound⟩)
    (fun _ _ => trivial) fun _ _ => trivial

theorem resolveDispute_admitted {pk : Nat} {outcome notes refund : String} :
    (resolveDisputeView session pk outcome notes refund).Makes rows later
      (Admitted rows later (.post session request)) x := by
  apply makes_staffOrOfficerRequired
  intro u y _ hknown hstaff
  apply makes_getDispute
  intro a z hz hfound
  exact makes_tryCall (.of_staff rfl rfl hknown hstaff hz ⟨z, hrefl z, hfound⟩)
    (fun _ _ => trivial) fun _ _ => trivial

theorem command_admitted {d : WebCall} (hc : c.signer = none) (hlocated : c.Located (rows x)) :
    (command c).Makes rows later (Admitted rows later d) x := by
  refine makes_tryCall ⟨fun u hu => ?_, x, hrefl x, hlocated⟩ (fun _ _ => trivial) fun _ _ => trivial
  rw [hc] at hu
  cases hu

include htrans hseller in
theorem post_admitted (parseDatetime : String → Option Time) (session : Option UserId)
    (request : Post) (x : X) : (request.view parseDatetime session).Makes rows later
      (Admitted rows later (.post session request)) x := by
  unfold Post.view
  cases request with
  | submitListing a => exact submitListing_admitted hrefl hseller
  | approveListing a reason => exact approveListing_admitted hrefl
  | rejectListing a reason => exact rejectListing_admitted hrefl
  | placeBid a amount => exact placeBid_admitted hrefl
  | startNow a | pause a reason | resume a | cancel a reason | endNow a reason =>
    refine action_admitted hrefl fun u c hc => ?_
    cases hc
    exact ⟨rfl, rfl, fun _ => trivial⟩
  | reschedule a post =>
    refine action_admitted hrefl fun u c hc => ?_
    cases hform : rescheduleForm parseDatetime post with
    | ok form =>
      rw [hform] at hc
      cases hc
      exact ⟨rfl, rfl, fun _ => trivial⟩
    | error e =>
      rw [hform] at hc
      cases hc
  | sweep => exact sweep_admitted hrefl
  | recordPaymentPaid pk method reference notes => exact recordPaymentPaid_admitted hrefl
  | recordPaymentFailed pk reason => exact recordPaymentFailed_admitted hrefl
  | disputeCreate a category description => exact disputeCreate_admitted hrefl htrans
  | takeDispute pk => exact takeDispute_admitted hrefl
  | resolveDispute pk outcome notes refund => exact resolveDispute_admitted hrefl
  | verifySeller u decision reason => exact verify_admitted hrefl
  | verifyBidder u decision reason => exact verify_admitted hrefl

include htrans hseller in
/-- No view calls a service for somebody who was not let in before. -/
theorem view_admitted (parseDatetime : String → Option Time) (d : WebCall) (x : X) :
    (d.view parseDatetime).Makes rows later (Admitted rows later d) x := by
  cases d with
  | post session request => exact post_admitted hrefl htrans hseller parseDatetime session request x
  | closeEndedAuctions => exact command_admitted hrefl rfl trivial
  | activateScheduledAuctions => exact command_admitted hrefl rfl trivial

end Views

section Services
variable {s t : Database} {sees : Database → Database → Prop} {l : ServiceTx} {u : UserId}

theorem openDispute_participant {a : AuctionId} {category description : String} {x : Dispute}
    (h : (openDispute a u category description).Exec sees s (.ok x) t) :
    u ∈ auctionParticipants (s.dossier a).row (s.dossier a).bids := by
  simp only [openDispute, exec_refuse_bind, exec_require_bind, exec_lockedAuction_bind,
    exec_query_bind, reduceCtorEq, false_and, and_false, false_or] at h
  obtain ⟨_, _, _, _, hraiser, _⟩ := h
  exact not_not.mp hraiser

/-- Who signs a commit is then still entitled, where that depends on the auction's bids. -/
theorem service_kept {r : Value} (h : l.prog.Exec sees s (.ok r) t) (hname : l.signer = some u) :
    l.right.Kept s u := by
  cases l with
  | openDispute a raisedBy category description =>
    obtain rfl := Option.some.inj hname
    obtain ⟨x, hx⟩ := exec_map_ok h
    exact openDispute_participant hx
  | recordProfile p action actor reason =>
    cases p <;> cases action <;> trivial
  | _ => trivial

end Services

section Runs
variable {parseDatetime : String → Option Time} {db : Database}

/-- The event commits a transaction of a request of the user `u`, who was entitled to the act:
let in while this request was being served, and where the rows of the commit decide, by them. -/
def Authorised (m : (website parseDatetime).Moment db) (ev : Event WebCall Outside) (u : UserId)
    (right : Right) : Prop :=
  ∃ i request l, ev = .act i ∧ m.now.commits ev = some (.post (some u) request, l) ∧
    right.Kept m.rows u ∧
    ∃ y : (website parseDatetime).Moment db, Moment.During i y m ∧ right.Asked y.rows u

theorem website_admitted
    {later : (website parseDatetime).Moment db → (website parseDatetime).Moment db → Prop}
    (hrefl : ∀ m, later m m) (htrans : ∀ {m m' m''}, later m m' → later m' m'' → later m m'')
    (hleads : ∀ {m m'}, later m m' → m.Leads m') (d : WebCall)
    (m : (website parseDatetime).Moment db) :
    (d.view parseDatetime).Makes Moment.rows later (Admitted Moment.rows later d) m :=
  view_admitted hrefl htrans
    (fun a h => congrArg Listing.seller (website_listing (hleads h) a)) parseDatetime d m

/-- At its commit a transaction is signed by somebody who was let in for the same request. -/
theorem commit_admitted {m : (website parseDatetime).Moment db} {i : Nat} {d : WebCall}
    {l : ServiceTx} {u : UserId} (hc : m.now.commits (.act i : Event WebCall Outside) = some (d, l))
    (hname : l.signer = some u) : (∃ request, d = .post (some u) request) ∧
      ∃ y : (website parseDatetime).Moment db, Moment.During i y m ∧ l.right.Asked y.rows u := by
  have hbody : ∀ i d m, ((website parseDatetime).body d).Issues Moment.rows (Moment.During i)
      (fun l (m : (website parseDatetime).Moment db) => ∀ u, l.signer = some u →
        (∃ request, d = .post (some u) request) ∧
          ∃ y : (website parseDatetime).Moment db, Moment.During i y m ∧ l.right.Asked y.rows u) m := by
    intro i d m
    refine (website_admitted Moment.During.refl Moment.During.trans Moment.During.leads d m).issues
      .trans .refl fun c z hadmitted => ?_
    refine (body_may .refl (fun _ _ _ => .trans) c z).since .trans fun l z' hz hmay u hname => ?_
    obtain ⟨hsigner, hasked⟩ := may_signs hmay hname
    obtain ⟨hrequest, y, hy, hright⟩ := hadmitted.named u hsigner
    exact ⟨hrequest, y, hy.trans hz, hasked _ hright⟩
  exact Run.issued_by (P := fun i d l m => ∀ u, l.signer = some u →
    (∃ request, d = .post (some u) request) ∧
      ∃ y : (website parseDatetime).Moment db, Moment.During i y m ∧ l.right.Asked y.rows u)
    hbody m hc u hname

theorem outside_named (v : Outside) (s : Database) (column : Column) :
    (v.apply s).named column = s.named column := by
  cases v <;> cases column <;> rfl

/-- A step of the covered requests leaves a column that names a user as it was, or makes it
name nobody, or the user whose request it commits and who was entitled to the act. -/
theorem website_names_authorised (m : (website parseDatetime).Moment db)
    {ev : Event WebCall Outside}
    {c' : Config Database RowKey PyError Nat (Value ⊕ Answer) ServiceTx WebCall}
    (taken : (website parseDatetime).step m.now ev = some c') (column : Column) :
    c'.world.db.named column = m.rows.named column ∨
      ∃ who right, c'.world.db.named column = some (who, right) ∧
        ∀ u, who = some u → Authorised m ev u right := by
  cases hcommit : m.now.commits ev with
  | none =>
    left
    rcases step_aside (m.run.tracked website_disciplined) taken hcommit with hsame | ⟨v, hsame⟩
    · rw [hsame]
      rfl
    · rw [hsame]
      exact outside_named v _ column
  | some issued =>
    obtain ⟨d, l⟩ := issued
    obtain ⟨v, hexec⟩ := website_commit m.run taken hcommit
    rcases service_signs hexec column with hsame | ⟨⟨who, right⟩, hnew, hsigned⟩
    · exact .inl hsame
    refine .inr ⟨who, right, hnew, ?_⟩
    rintro u rfl
    rcases hsigned with hnone | hsigned
    · cases hnone
    obtain ⟨hsigner, rfl⟩ := Prod.mk.inj hsigned
    obtain ⟨i, _, _, _, _, rfl, _⟩ := commits_some hcommit
    obtain ⟨⟨request, rfl⟩, y, hy, hasked⟩ := commit_admitted hcommit hsigner.symm
    exact ⟨i, request, l, rfl, hcommit, service_kept hexec hsigner.symm, y, hy, hasked⟩

/-- The seller of the sample listing submits it, and is named for that by the commit. -/
theorem website_names_authorised_seller :
    ∃ (m : (website strptime).Moment sampleDatabase)
      (c' : Config Database RowKey PyError Nat (Value ⊕ Answer) ServiceTx WebCall),
      (website strptime).step m.now (.act 0) = some c' ∧
      m.rows.named (.about 0 (.log 0)) = none ∧
      c'.world.db.named (.about 0 (.log 0)) = some (some 1, .seller 0) ∧
      Authorised m (.act 0) 1 (.seller 0) := by
  obtain ⟨m, hm⟩ := scheduled_moment (website strptime) sampleDatabase
    ([.call 0 (.post (some 1) (.submitListing 0))] ++ moves 0 9)
    (fun c => c.world.db.named (.about 0 (.log 0)) == none &&
      (((website strptime).step c (.act 0)).any fun c' =>
        c'.world.db.named (.about 0 (.log 0)) == some (some 1, .seller 0))) (by decide +kernel)
  simp only [Bool.and_eq_true, beq_iff_eq] at hm
  obtain ⟨hbefore, hstep⟩ := hm
  obtain ⟨c', taken, hafter⟩ := (Option.any_eq_true ..).mp hstep
  rw [beq_iff_eq] at hafter
  refine ⟨m, c', taken, hbefore, hafter, ?_⟩
  rcases website_names_authorised m taken (.about 0 (.log 0)) with hsame | ⟨who, right, hnew, hright⟩
  · rw [hafter] at hsame
    cases hsame.trans hbefore
  · cases hafter.symm.trans hnew
    exact hright 1 rfl

end Runs

end MbararaAuction
