import MbararaAuction.Proofs.Bids
import MbararaAuction.Proofs.Exceptions

namespace MbararaAuction
open Transactions Locking Queries

seal Tx.Exec

/-- The exceptions that may leave a call, other than those of the database itself. -/
def Call.Raises (c : Call) (e : PyError) : Prop :=
  match c with
  | submitForReview _ _ | approve _ _ _ | reject _ _ _ | activateIfDue _ _
  | activateScheduledAuctions => (invalidTransitionText e).isSome
  | startNow _ _ | reschedule _ _ _ _ _ | pause _ _ _ | resume _ _ | cancelAuction _ _ _
  | endNow _ _ _ => (actionText e).isSome
  | placeBid _ _ _ => (bidRejectedText e).isSome
  | closeAuction _ _ | closeEndedAuctions | takeForReview _ _ _ | resolveDispute _ _ _ _ _ _
  | markFailed _ _ _ _ _ => (valueErrorText e).isSome
  | openDispute _ _ _ _ => (valueErrorText e).isSome ∨ ∃ message, e = .permissionError message
  | markPaid _ _ _ _ method reference _ => (valueErrorText e).isSome ∨
      (invalidTransitionText e).isSome ∨
      (50 < method.length ∨ 100 < reference.length) ∧ e = .dataError
  | invalidateBid _ _ _ reason | rejectProfile _ _ _ reason | suspendBidder _ _ _ reason =>
    e = .doesNotExist ∨ reason = "" ∧ (valueErrorText e).isSome
  | verifyProfile _ _ _ _ | reactivateBidder _ _ _ _ => e = .doesNotExist
  | sweepDue _ => False

/-- The driver refuses a text of the request. -/
def Post.Refused (request : Post) (e : PyError) : Prop :=
  ¬ request.Storable ∧ e = .valueError "A string literal cannot contain NUL (0x00) characters."

/-- The exceptions that may end a request. -/
def Post.Crashes (request : Post) (e : PyError) : Prop :=
  match request with
  | recordPaymentPaid _ method reference _ => (invalidTransitionText e).isSome ∨
      (50 < method.length ∨ 100 < reference.length) ∧ e = .dataError
  | approveListing _ _ | rejectListing _ _ => request.Refused e
  | verifySeller _ _ _ | verifyBidder _ _ _ => e = .doesNotExist ∨ request.Refused e
  -- Every other view that keeps a text handles a `ValueError`.
  | _ => False

/-- The exceptions that may end a request or a command. -/
def WebCall.Crashes (d : WebCall) (e : PyError) : Prop :=
  match d with
  | .post _ request => request.Crashes e
  | .closeEndedAuctions => (valueErrorText e).isSome
  | .activateScheduledAuctions => (invalidTransitionText e).isSome

/-- The rows were such that the transaction could raise this, or a statement or the broker
failed. -/
def RaisedAt {X : Type} (rows : X → Database) (l : ServiceTx) (e : PyError) (x : X) : Prop :=
  e = .operationalError ∨
    DistinctKeys e ∧ ∃ t, l.prog.Exec Anything (rows x) (.error e) t

/-- Or a statement or the broker failed. -/
abbrev OrFault (F : PyError → Prop) (e : PyError) : Prop := e = .operationalError ∨ F e

section Tasks
variable {X : Type} {rows : X → Database} {later : X → X → Prop} {x : X} {l : ServiceTx}
variable {F : PyError → Prop} {e : PyError}
variable (hbooks : ∀ x a, BidBook ((rows x).dossier a) ∧ DisputeBook ((rows x).dossier a))

include hbooks in
theorem raisedAt_raises (h : RaisedAt rows l e x) (hfound : l.Located (rows x)) :
    OrFault l.Raises e := by
  rcases h with hfault | ⟨hkeys, t, hexec⟩
  · exact .inl hfault
  · exact .inr (service_raises (fun a => (hbooks x a).1) (fun a => (hbooks x a).2) hfound hkeys hexec)

include hbooks in
/-- One transaction in front of what cannot fail. -/
theorem tx_safe {ok : Value → ServiceTask} {err : PyError → ServiceTask}
    (hfound : ∀ y, later x y → l.Located (rows y))
    (hok : ∀ v y, later x y → (ok v).Safe rows later (RaisedAt rows) F y)
    (herr : ∀ e y, later x y → OrFault l.Raises e → (err e).Safe rows later (RaisedAt rows) F y) :
    Task.Safe rows later (RaisedAt rows) F (.tx l ok err) x :=
  fun y hy => ⟨fun v => hok v y hy, fun e he => herr e y hy (raisedAt_raises hbooks he (hfound y hy))⟩

include hbooks in
theorem alone_safe (hfound : ∀ y, later x y → l.Located (rows y))
    (hF : ∀ e, OrFault l.Raises e → F e) : l.alone.Safe rows later (RaisedAt rows) F x :=
  tx_safe hbooks hfound (fun _ _ _ => trivial) fun e _ _ he => hF e he

variable (htrans : ∀ x y z, later x y → later y z → later x z)

include hbooks htrans in
theorem activateIfDue_safe {auction : LoadedAuction} {actor : Option UserId}
    {ok : Value → ServiceTask} {err : PyError → ServiceTask}
    (hok : ∀ v y, later x y → (ok v).Safe rows later (RaisedAt rows) F y)
    (herr : ∀ e y, later x y → OrFault (fun e => (invalidTransitionText e).isSome) e →
      (err e).Safe rows later (RaisedAt rows) F y) :
    (activateIfDue auction actor ok err).Safe rows later (RaisedAt rows) F x := by
  intro y hy
  beta_reduce
  split
  · exact tx_safe hbooks (fun _ _ => trivial) (fun v z hz => hok v z (htrans _ _ _ hy hz))
      fun e z hz he => herr e z (htrans _ _ _ hy hz) he
  · exact hok _ y hy

variable (hrefl : ∀ x, later x x)

include hbooks htrans hrefl in
theorem activateEach_safe {actor : Option UserId} {catches : PyError → Bool}
    {next : Nat → ServiceTask} (auctions : List LoadedAuction) (count : Nat)
    (hF : ∀ e, OrFault (fun e => (invalidTransitionText e).isSome) e → catches e = false → F e)
    (hnext : ∀ n y, later x y → (next n).Safe rows later (RaisedAt rows) F y) :
    (activateEach actor catches auctions count next).Safe rows later (RaisedAt rows) F x := by
  induction auctions generalizing count x with
  | nil => exact hnext count x (hrefl x)
  | cons auction rest ih =>
    have hrest : ∀ n y, later x y →
        (activateEach actor catches rest n next).Safe rows later (RaisedAt rows) F y :=
      fun n y hy => ih n fun k z hz => hnext k z (htrans _ _ _ hy hz)
    apply activateIfDue_safe hbooks htrans
    · exact fun _ y hy => hrest _ y hy
    · intro e y hy he
      split
      · exact hrest _ y hy
      · next hmissed => exact hF e he (Bool.eq_false_of_not_eq_true hmissed)

include hbooks htrans hrefl in
theorem closeEach_safe {actor : Option UserId} {catches : PyError → Bool}
    {next : Nat → ServiceTask} (auctions : List LoadedAuction) (count : Nat)
    (hF : ∀ e, OrFault (fun e => (valueErrorText e).isSome) e → catches e = false → F e)
    (hnext : ∀ n y, later x y → (next n).Safe rows later (RaisedAt rows) F y) :
    (closeEach actor catches auctions count next).Safe rows later (RaisedAt rows) F x := by
  induction auctions generalizing count x with
  | nil => exact hnext count x (hrefl x)
  | cons auction rest ih =>
    have hrest : ∀ n y, later x y →
        (closeEach actor catches rest n next).Safe rows later (RaisedAt rows) F y :=
      fun n y hy => ih n fun k z hz => hnext k z (htrans _ _ _ hy hz)
    apply tx_safe hbooks (l := .closeAuction auction actor) fun _ _ => trivial
    · exact fun _ y hy => hrest _ y hy
    · intro e y hy he
      split
      · exact hrest _ y hy
      · next hmissed => exact hF e he (Bool.eq_false_of_not_eq_true hmissed)

include hbooks htrans hrefl in
theorem notifyTask_safe {notice : Notice} {next : ServiceTask} (hF : F .operationalError)
    (hnext : ∀ y, later x y → next.Safe rows later (RaisedAt rows) F y) :
    (notifyTask notice next).Safe rows later (RaisedAt rows) F x := by
  have herr : ∀ l : ServiceTx, (∀ e, ¬ l.Raises e) → ∀ e y, later x y → OrFault l.Raises e →
      Task.Safe rows later (RaisedAt rows) F (.fail e : ServiceTask) y := by
    intro l hnone e y _ he
    rcases he with rfl | he
    · exact hF
    · exact absurd he (hnone e)
  unfold notifyTask
  split
  · exact hnext x (hrefl x)
  · refine tx_safe hbooks (fun _ _ => trivial) (fun v y hy => ?_) (herr _ fun _ => id)
    split
    · refine tx_safe hbooks (fun _ _ => trivial) (fun _ z hz => hnext z (htrans _ _ _ hy hz)) ?_
      exact fun e z hz he => herr (.deliver _) (fun _ => id) e z (htrans _ _ _ hy hz) he
    · exact hnext y hy

/-- What raises nothing raises nothing but the faults. -/
theorem fault_of_silent (h : ∀ e, ¬ l.Raises e) (hF : F .operationalError) (e : PyError)
    (he : OrFault l.Raises e) : F e := by
  rcases he with rfl | he
  · exact hF
  · exact absurd he (h e)

include hbooks htrans hrefl in
theorem markFailed_safe {payment : LoadedPayment} {actor : UserId} {reason : String}
    (hF : F .operationalError) (hvalue : ∀ message, F (.valueError message)) :
    (markFailedTask payment actor reason).Safe rows later (RaisedAt rows) F x := by
  unfold markFailedTask
  split
  · exact hvalue _
  · split
    · exact hvalue _
    · refine tx_safe hbooks (fun _ _ => trivial) (fun _ y _ => ?_)
        fun e _ _ he => fault_of_silent (fun _ => id) hF e he
      refine tx_safe hbooks (fun _ _ => trivial) (fun _ z _ => ?_)
        fun e _ _ he => fault_of_silent (fun _ => id) hF e he
      split
      · exact notifyTask_safe hbooks htrans hrefl hF fun _ _ => trivial
      · exact fun _ _ => notifyTask_safe hbooks htrans hrefl hF fun _ _ => trivial

include hbooks htrans hrefl in
theorem announceTask_safe {p : ProfileRef} {userSelected : Bool} {action : AuditAction}
    {actor : UserId} {reason : String} {notice : Notice} {result : Value} (hF : F .operationalError) :
    (announceTask p userSelected action actor reason notice result).Safe rows later (RaisedAt rows) F x := by
  refine tx_safe hbooks (fun _ _ => trivial) (fun _ y _ => ?_)
    fun e _ _ he => fault_of_silent (fun _ => id) hF e he
  split
  · exact notifyTask_safe hbooks htrans hrefl hF fun _ _ => trivial
  · exact fun _ _ => notifyTask_safe hbooks htrans hrefl hF fun _ _ => trivial

include hbooks htrans hrefl in
theorem applyVerification_safe {profile : Profile} {userSelected : Bool}
    {status : VerificationStatus} {actor : UserId} {reason : String} (hF : F .operationalError) :
    (applyVerificationTask profile userSelected status actor reason).Safe rows later (RaisedAt rows)
      F x :=
  tx_safe hbooks (fun _ _ => trivial) (fun _ _ _ => announceTask_safe hbooks htrans hrefl hF)
    fun e _ _ he => fault_of_silent (fun _ => id) hF e he

theorem Loads.safe {α : Type} {load : (α → ServiceTask) → ServiceTask} {fits : α → Database → Prop}
    (h : Loads load fits) {f : α → ServiceTask} (hnone : F .doesNotExist)
    (hf : ∀ v y, later x y → (f v).Safe rows later (RaisedAt rows) F y) :
    (load f).Safe rows later (RaisedAt rows) F x := by
  obtain ⟨rest, hload, hrest⟩ := h.reads f
  rw [hload]
  intro y hy
  rcases hrest (rows y) with hmissing | ⟨v, _, hfound⟩
  · rw [hmissing]
    exact hnone
  · rw [hfound]
    exact hf v y hy

/-- A payment that has been found is found again. -/
theorem withPayment_safe {a : AuctionId} {pk : Nat} {selectRelated : Bool}
    {f : LoadedPayment → ServiceTask}
    (hfound : ∀ y, later x y → ∃ p ∈ ((rows y).dossier a).payments, p.pk = pk)
    (hf : ∀ v y, later x y → (f v).Safe rows later (RaisedAt rows) F y) :
    (withPayment a pk selectRelated f).Safe rows later (RaisedAt rows) F x := by
  intro y hy
  beta_reduce
  split
  · next hnone =>
    obtain ⟨p, hp, hpk⟩ := hfound y hy
    have hother := List.find?_eq_none.mp hnone p hp
    exact absurd hpk (by simpa using hother)
  · exact hf _ y hy

end Tasks

theorem validation_of_transition {e : PyError} (h : (invalidTransitionText e).isSome) :
    e.isValidationError = true := by
  cases e <;> first | rfl | cases h

theorem isValueError_of_text {e : PyError} (h : (valueErrorText e).isSome) :
    e.isValueError = true := by
  cases e <;> first | rfl | cases h

section Calls
variable {X : Type} {rows : X → Database} {later : X → X → Prop} {x : X}
variable (hbooks : ∀ x a, BidBook ((rows x).dossier a) ∧ DisputeBook ((rows x).dossier a))
variable (hrefl : ∀ x, later x x) (htrans : ∀ x y z, later x y → later y z → later x z)

include hbooks htrans hrefl in
/-- A call on rows that are there raises nothing but what is said of it. -/
theorem body_safe (c : Call) (hfound : ∀ y, later x y → c.Located (rows y)) :
    (engine.body c).Safe rows later (RaisedAt rows) (OrFault c.Raises) x := by
  cases c with
  | approve a actor reason =>
    refine tx_safe hbooks (fun _ _ => trivial) (fun _ y _ => ?_) fun _ _ _ he => he
    exact alone_safe hbooks (fun _ _ => trivial) fun _ he => he
  | activateIfDue a actor =>
    exact fun _ _ => activateIfDue_safe hbooks htrans (fun _ _ _ => trivial) fun _ _ _ he => he
  | sweepDue actor =>
    intro _ _ _ _
    refine activateEach_safe hbooks htrans hrefl _ 0 (fun e he hmissed => ?_) fun _ _ _ _ _ => ?_
    · rcases he with rfl | he
      · exact .inl rfl
      · rw [validation_of_transition he] at hmissed
        cases hmissed
    · refine closeEach_safe hbooks htrans hrefl _ 0 (fun e he hmissed => ?_) fun _ _ _ => trivial
      rcases he with rfl | he
      · exact .inl rfl
      · rw [isValueError_of_text he] at hmissed
        cases hmissed
  | closeEndedAuctions =>
    exact fun _ _ _ _ => closeEach_safe hbooks htrans hrefl _ 0 (fun _ he _ => he) fun _ _ _ => trivial
  | activateScheduledAuctions =>
    exact fun _ _ _ _ => activateEach_safe hbooks htrans hrefl _ 0 (fun _ he _ => he)
      fun _ _ _ => trivial
  | invalidateBid a pk actor reason =>
    intro _ _
    beta_reduce
    split
    · exact .inr (.inl rfl)
    · split
      · next hblank => exact .inr (.inr ⟨hblank, rfl⟩)
      · exact alone_safe hbooks (fun _ _ => trivial)
          fun e he => fault_of_silent (fun _ => id) (.inl rfl) e he
  | closeAuction a actor => exact fun _ _ => alone_safe hbooks (fun _ _ => trivial) fun _ he => he
  | markPaid a pk selectRelated actor method reference notes =>
    exact withPayment_safe hfound fun payment _ _ => alone_safe hbooks
      (l := .markPaid payment actor method reference notes) (fun _ _ => trivial) fun _ he => he
  | markFailed a pk selectRelated actor reason =>
    exact withPayment_safe (f := fun payment => markFailedTask payment actor reason) hfound
      fun _ _ _ => markFailed_safe hbooks htrans hrefl (.inl rfl) fun _ => .inr rfl
  | takeForReview a pk actor => exact alone_safe hbooks hfound fun _ he => he
  | resolveDispute a pk actor outcome notes refund => exact alone_safe hbooks hfound fun _ he => he
  | verifyProfile p userSelected actor reason =>
    exact (withProfile_loads p).safe (.inr rfl) fun _ _ _ =>
      applyVerification_safe hbooks htrans hrefl (.inl rfl)
  | rejectProfile p userSelected actor reason =>
    refine (withProfile_loads p).safe (f := fun profile =>
      rejectProfileTask profile userSelected actor reason) (.inr (.inl rfl)) fun _ _ _ => ?_
    unfold rejectProfileTask
    split
    · next hblank => exact .inr (.inr ⟨hblank, rfl⟩)
    · exact applyVerification_safe hbooks htrans hrefl (.inl rfl)
  | suspendBidder u userSelected actor reason =>
    refine (withBidder_loads u).safe (f := fun row =>
      suspendBidderTask u row userSelected actor reason) (.inr (.inl rfl)) fun _ _ _ => ?_
    unfold suspendBidderTask
    split
    · next hblank => exact .inr (.inr ⟨hblank, rfl⟩)
    · exact tx_safe hbooks (fun _ _ => trivial)
        (fun _ _ _ => announceTask_safe hbooks htrans hrefl (.inl rfl))
        fun e _ _ he => fault_of_silent (fun _ => id) (.inl rfl) e he
  | reactivateBidder u userSelected actor reason =>
    refine (withBidder_loads u).safe (f := fun row =>
      reactivateBidderTask u row userSelected actor reason) (.inr rfl) fun _ _ _ => ?_
    exact tx_safe hbooks (fun _ _ => trivial)
      (fun _ _ _ => announceTask_safe hbooks htrans hrefl (.inl rfl))
      fun e _ _ he => fault_of_silent (fun _ => id) (.inl rfl) e he
  | _ => exact alone_safe hbooks (fun _ _ => trivial) fun _ he => he

end Calls

section Views
variable {G : Call → PyError → Prop} {F : PyError → Prop} {session : Option UserId}

theorem safe_loginRequired {view : UserId → User → PostView} (h : ∀ u user, (view u user).Safe G F) :
    (loginRequired session view).Safe G F := by
  intro s
  beta_reduce
  split
  · trivial
  · exact h _ _

theorem safe_testRequired {test : User → Bool} {view : UserId → User → PostView}
    (h : ∀ u user, (view u user).Safe G F) : (testRequired test session view).Safe G F := by
  intro s
  beta_reduce
  split
  · trivial
  · split
    · exact h _ _
    · trivial

theorem safe_getAuction {a : AuctionId} {next : Auction → PostView} (h : ∀ row, (next row).Safe G F) :
    (getAuction a next).Safe G F := by
  intro s
  beta_reduce
  split
  · exact h _
  · trivial

theorem safe_getPayment {pk : Nat} {next : AuctionId → PostView} (h : ∀ a, (next a).Safe G F) :
    (getPayment pk next).Safe G F := by
  intro s
  beta_reduce
  split
  · trivial
  · exact h _

theorem safe_getDispute {pk : Nat} {next : AuctionId → PostView} (h : ∀ a, (next a).Safe G F) :
    (getDispute pk next).Safe G F := by
  intro s
  beta_reduce
  split
  · trivial
  · exact h _

/-- Of the exceptions of the call, those that are not caught must be allowed. -/
theorem safe_tryCall {c : Call} {caught : PyError → Option String} {ok : Value → PostView}
    {handle : String → PostView} (hok : ∀ v, (ok v).Safe G F) (hhandle : ∀ text, (handle text).Safe G F)
    (hmissed : ∀ e, G c e → (caught e).isSome ∨ F e) : (tryCall c caught ok handle).Safe G F := by
  refine ⟨hok, fun e he => ?_⟩
  dsimp only
  split
  · exact hhandle _
  · next hnone =>
    rcases hmissed e he with hcaught | hallowed
    · rw [hnone] at hcaught
      cases hcaught
    · exact hallowed

/-- The same, where a fault of the database is always allowed. -/
theorem safe_call {c : Call} {caught : PyError → Option String} {ok : Value → PostView}
    {handle : String → PostView} (hok : ∀ v, (ok v).Safe (fun c => OrFault c.Raises) (OrFault F))
    (hhandle : ∀ text, (handle text).Safe (fun c => OrFault c.Raises) (OrFault F))
    (hmissed : ∀ e, c.Raises e → (caught e).isSome ∨ F e) :
    (tryCall c caught ok handle).Safe (fun c => OrFault c.Raises) (OrFault F) := by
  refine safe_tryCall hok hhandle fun e he => ?_
  rcases he with rfl | hraised
  · exact .inr (.inl rfl)
  · exact (hmissed e hraised).imp_right .inr

theorem safe_action {a : AuctionId} {success : String} {run : UserId → Except PyError Call}
    (hform : ∀ u e, run u = .error e → (actionText e).isSome)
    (hcall : ∀ u c, run u = .ok c → ∀ e, c.Raises e → (actionText e).isSome) :
    (actionView session a success run).Safe (fun c => OrFault c.Raises) (OrFault F) := by
  refine safe_testRequired fun u _ => safe_getAuction fun _ => ?_
  cases hrun : run u with
  | ok c => exact safe_call (fun _ => trivial) (fun _ => trivial) fun e he => .inl (hcall u c hrun e he)
  | error e =>
    obtain ⟨text, htext⟩ := Option.isSome_iff_exists.mp (hform u e hrun)
    simp only [htext]
    trivial

theorem safe_verify {p : ProfileRef} {decision reason : String} (hF : F .doesNotExist) :
    (verifyView p session decision reason).Safe (fun c => OrFault c.Raises) (OrFault F) := by
  refine safe_testRequired fun u _ s => ?_
  beta_reduce
  split
  · trivial
  · split
    · refine safe_call (fun _ _ => trivial) (fun _ => trivial) fun e he => ?_
      rw [he]
      exact .inr hF
    · split
      · split
        · trivial
        · next hreason =>
          refine safe_call (fun _ _ => trivial) (fun _ => trivial) fun e he => ?_
          rcases he with rfl | ⟨hblank, _⟩
          · exact .inr hF
          · exact absurd hblank hreason
      · trivial

theorem safe_disputeCreate {a : AuctionId} {category description : String} :
    (disputeCreateView session a category description).Safe (fun c => OrFault c.Raises)
      (OrFault F) := by
  refine safe_loginRequired fun u _ => safe_getAuction fun row => ?_
  unfold askRaiseDispute
  split
  · trivial
  · intro s
    beta_reduce
    split
    · trivial
    · intro s
      beta_reduce
      split
      · split
        · refine ⟨fun _ => trivial, fun e he => ?_⟩
          rcases he with rfl | htext | ⟨message, rfl⟩
          · exact .inl rfl
          · cases e with
            | valueError | schedulingError => exact True.intro
            | _ => cases htext
          · exact True.intro
        · trivial
      · trivial

end Views

section Website
variable {parseDatetime : String → Option Time} {session : Option UserId}

theorem rescheduleForm_raises {post : ReschedulePost} {e : PyError}
    (h : rescheduleForm parseDatetime post = .error e) : (actionText e).isSome := by
  unfold rescheduleForm at h
  split at h
  · cases h
  · cases h
    rfl

theorem command_safe {c : Call} {F : PyError → Prop} (h : ∀ e, c.Raises e → F e) :
    (command c).Safe (fun c => OrFault c.Raises) (OrFault F) :=
  safe_call (fun _ => trivial) (fun _ => trivial) fun e he => .inr (h e he)

/-- What a view catches is what its call raises, but for the exceptions named. -/
theorem post_safe (request : Post) : (request.view parseDatetime session).Safe
    (fun c => OrFault c.Raises) (OrFault (WebCall.post session request).Crashes) := by
  unfold Post.view
  cases request with
  | submitListing a =>
    refine safe_testRequired fun u user => safe_getAuction fun row => ?_
    split
    · exact safe_call (fun _ => trivial) (fun _ => trivial) fun _ he => .inl he
    · trivial
  | approveListing a reason =>
    exact safe_testRequired fun u user => safe_getAuction fun row =>
      safe_call (fun _ => trivial) (fun _ => trivial) fun _ he => .inl he
  | rejectListing a reason =>
    refine safe_testRequired fun u user => safe_getAuction fun row => ?_
    split
    · trivial
    · exact safe_call (fun _ => trivial) (fun _ => trivial) fun _ he => .inl he
  | placeBid a amount =>
    refine safe_testRequired fun u user => safe_getAuction fun row => ?_
    split
    · trivial
    · exact safe_call (fun _ => trivial) (fun _ => trivial) fun _ he => .inl he
  | startNow a | pause a reason | resume a | cancel a reason | endNow a reason =>
    refine safe_action (fun _ _ he => (by cases he)) fun u c hc => ?_
    cases hc
    exact fun _ he => he
  | reschedule a post =>
    refine safe_action (fun u e he => ?_) fun u c hc => ?_
    · cases hform : rescheduleForm parseDatetime post with
      | ok form =>
        rw [hform] at he
        cases he
      | error e' =>
        rw [hform] at he
        cases he
        exact rescheduleForm_raises hform
    · cases hform : rescheduleForm parseDatetime post with
      | ok form =>
        rw [hform] at hc
        cases hc
        exact fun _ he => he
      | error e' =>
        rw [hform] at hc
        cases hc
  | sweep =>
    exact safe_testRequired fun u user =>
      safe_call (fun _ => trivial) (fun _ => trivial) fun _ he => he.elim
  | recordPaymentPaid pk method reference notes =>
    exact safe_testRequired fun u user => safe_getPayment fun a =>
      safe_call (fun _ _ => trivial) (fun _ => trivial) fun _ he => he
  | recordPaymentFailed pk reason =>
    refine safe_testRequired fun u user => safe_getPayment fun a => ?_
    split
    · trivial
    · exact safe_call (fun _ _ => trivial) (fun _ => trivial) fun _ he => .inl he
  | disputeCreate a category description => exact safe_disputeCreate
  | takeDispute pk =>
    exact safe_testRequired fun u user => safe_getDispute fun a =>
      safe_call (fun _ => trivial) (fun _ => trivial) fun _ he => .inl he
  | resolveDispute pk outcome notes refund =>
    exact safe_testRequired fun u user => safe_getDispute fun a =>
      safe_call (fun _ => trivial) (fun _ => trivial) fun _ he => .inl he
  | verifySeller u decision reason => exact safe_verify (.inl rfl)
  | verifyBidder u decision reason => exact safe_verify (.inl rfl)

theorem view_safe (d : WebCall) :
    (d.view parseDatetime).Safe (fun c => OrFault c.Raises) (OrFault d.Crashes) := by
  cases d with
  | post session request => exact post_safe request
  | closeEndedAuctions => exact command_safe fun _ he => he
  | activateScheduledAuctions => exact command_safe fun _ he => he

end Website

section Runs
variable {parseDatetime : String → Option Time} {db : Database}

theorem website_books (hfresh : ∀ a, Fresh (db.dossier a)) (m : (website parseDatetime).Moment db)
    (a : AuctionId) : BidBook (m.rows.dossier a) ∧ DisputeBook (m.rows.dossier a) := by
  obtain ⟨n, hn, _⟩ := website_refines_services m
  have hrows : n.rows = m.rows := congrArg World.db hn
  rw [← hrows]
  exact ⟨run_bidBook n.run (hfresh a), run_disputeBook n.run (hfresh a)⟩

/-- Payments and disputes that are found stay. -/
theorem located_stays {c : Call} {m' m : (website parseDatetime).Moment db} (hm : m'.Leads m)
    (h : c.Located m'.rows) : c.Located m.rows := by
  have hdisputes : ∀ a, (m'.rows.dossier a).disputes.map Dispute.pk ⊆
      (m.rows.dossier a).disputes.map Dispute.pk := fun a =>
    website_leads (R := fun s t => (s.dossier a).disputes.map Dispute.pk ⊆
      (t.dossier a).disputes.map Dispute.pk) hm fun _ _ hlater =>
        leads_dossier (I := fun _ => True)
          (R := fun d e => d.disputes.map Dispute.pk ⊆ e.disputes.map Dispute.pk) hlater
          (fun _ => List.Subset.refl _) List.Subset.trans (fun _ => trivial)
          fun _ _ _ _ hmove => hmove.keeps_keys
  have hpayments : ∀ a, (m'.rows.dossier a).payments.map Payment.pk ⊆
      (m.rows.dossier a).payments.map Payment.pk := fun a =>
    website_leads (R := fun s t => (s.dossier a).payments.map Payment.pk ⊆
      (t.dossier a).payments.map Payment.pk) hm fun _ _ hlater =>
        leads_dossier (I := fun _ => True)
          (R := fun d e => d.payments.map Payment.pk ⊆ e.payments.map Payment.pk) hlater
          (fun _ => List.Subset.refl _) List.Subset.trans (fun _ => trivial)
          fun _ _ _ _ hmove => hmove.keeps_payments
  cases c with
  | takeForReview a pk | resolveDispute a pk => exact List.mem_map.mp (hdisputes a (List.mem_map.mpr h))
  | markPaid a pk | markFailed a pk => exact List.mem_map.mp (hpayments a (List.mem_map.mpr h))
  | _ => trivial

/-- A request by the user `u`, and the moves that its process makes next. -/
def posts (i : Nat) (u : UserId) (request : Post) (n : Nat) : List (Event WebCall Outside) :=
  .call i (.post (some u) request) :: moves i n

/-- The sample listing is sold, and while the payment is recorded the winner opens a dispute. -/
def disputedPayment : List (Event WebCall Outside) :=
  posts 0 1 (.submitListing 0) 10 ++ posts 1 0 (.approveListing 0 "") 20 ++
    posts 2 0 (.startNow 0) 16 ++ posts 3 2 (.placeBid 0 "600000") 19 ++
    posts 4 0 (.endNow 0 "Sold") 27 ++ posts 5 0 (.recordPaymentPaid 4 "cash" "" "") 9 ++
    posts 6 2 (.disputeCreate 0 "OTHER" "Lame") 28 ++ moves 5 3

end Runs

end MbararaAuction
