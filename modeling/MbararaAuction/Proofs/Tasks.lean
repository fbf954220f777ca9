import MbararaAuction.Model.Services
import MbararaAuction.Transactions.Rules

namespace MbararaAuction
open Transactions

section Queries

theorem dueToStart_iff {t : Time} {row : Auction} : dueToStart t row = true ↔
    row.status = .scheduled ∧ row.startTime ≤ t := by
  simp [dueToStart]

theorem dueToClose_iff {t : Time} {row : Auction} : dueToClose t row = true ↔
    row.status = .live ∧ row.endTime ≤ t := by
  simp [dueToClose]

theorem mem_auctionsWhere {s : Database} {f : Auction → Bool} {x : LoadedAuction} :
    x ∈ auctionsWhere s f ↔ x.pk ∈ s.auctionPks ∧ (s.dossier x.pk).row = x.row ∧ f x.row = true := by
  obtain ⟨a, row⟩ := x
  simp only [auctionsWhere, List.mem_filter, List.mem_map, LoadedAuction.mk.injEq]
  constructor
  · rintro ⟨⟨b, hb, rfl, hrow⟩, hf⟩
    exact ⟨hb, hrow, hf⟩
  · rintro ⟨hb, hrow, hf⟩
    exact ⟨⟨a, hb, rfl, hrow⟩, hf⟩

end Queries

section Tasks
variable {X : Type} {rows : X → Database} {later : X → X → Prop} {P : ServiceTx → X → Prop}
variable {m : X}

/-- A transaction in a task of its own. -/
theorem alone_run (l : ServiceTx) (w : World Database Nat) :
    l.alone.run engine w = (engine.prog l).atomic w := by
  simp only [ServiceTx.alone, Task.run]
  split <;> rename_i hrun <;> exact hrun.symm

theorem alone_issues {l : ServiceTx} (h : ∀ m', later m m' → P l m') :
    l.alone.Issues rows later P m :=
  fun m' hm' => ⟨h m' hm', fun _ => trivial, fun _ => trivial⟩

/-- An activation is issued for an auction that was loaded as due. -/
theorem activateIfDue_issues (htrans : ∀ x y z, later x y → later y z → later x z)
    {auction : LoadedAuction} {actor : Option UserId} {ok : Value → ServiceTask}
    {err : PyError → ServiceTask}
    (htx : ∀ y, later m y → auction.row.status = .scheduled →
      auction.row.startTime ≤ (rows y).clock → ∀ m', later y m' → P (.activate auction.pk actor) m')
    (hok : ∀ v m', later m m' → (ok v).Issues rows later P m')
    (herr : ∀ e m', later m m' → (err e).Issues rows later P m') :
    (activateIfDue auction actor ok err).Issues rows later P m := by
  intro y hy
  beta_reduce
  split
  · rename_i hdue
    intro m' hm'
    exact ⟨htx y hy hdue.1 hdue.2 m' hm', fun v => hok v m' (htrans _ _ _ hy hm'),
      fun e => herr e m' (htrans _ _ _ hy hm')⟩
  · exact hok _ y hy

theorem activateEach_issues (hrefl : ∀ x, later x x)
    (htrans : ∀ x y z, later x y → later y z → later x z) {actor : Option UserId}
    {catches : PyError → Bool} {next : Nat → ServiceTask} (auctions : List LoadedAuction)
    (count : Nat)
    (htx : ∀ auction ∈ auctions, ∀ y, later m y → auction.row.status = .scheduled →
      auction.row.startTime ≤ (rows y).clock → ∀ m', later y m' → P (.activate auction.pk actor) m')
    (hnext : ∀ n m', later m m' → (next n).Issues rows later P m') :
    (activateEach actor catches auctions count next).Issues rows later P m := by
  induction auctions generalizing count m with
  | nil => exact hnext count m (hrefl m)
  | cons auction rest ih =>
    have hrest : ∀ n m', later m m' →
        (activateEach actor catches rest n next).Issues rows later P m' := by
      intro n m' hm'
      apply ih
      · intro x hx y hy
        exact htx x (List.mem_cons_of_mem _ hx) y (htrans _ _ _ hm' hy)
      · exact fun k y hy => hnext k y (htrans _ _ _ hm' hy)
    apply activateIfDue_issues htrans
    · exact htx auction (List.mem_cons_self ..)
    · exact fun _ m' hm' => hrest _ m' hm'
    · intro e m' hm'
      split
      · exact hrest _ m' hm'
      · trivial

theorem closeEach_issues (hrefl : ∀ x, later x x)
    (htrans : ∀ x y z, later x y → later y z → later x z) {actor : Option UserId}
    {catches : PyError → Bool} {next : Nat → ServiceTask} (auctions : List LoadedAuction)
    (count : Nat)
    (htx : ∀ auction ∈ auctions, ∀ m', later m m' → P (.closeAuction auction actor) m')
    (hnext : ∀ n m', later m m' → (next n).Issues rows later P m') :
    (closeEach actor catches auctions count next).Issues rows later P m := by
  induction auctions generalizing count m with
  | nil => exact hnext count m (hrefl m)
  | cons auction rest ih =>
    intro m' hm'
    have hrest : ∀ n, (closeEach actor catches rest n next).Issues rows later P m' := by
      intro n
      apply ih
      · intro x hx y hy
        exact htx x (List.mem_cons_of_mem _ hx) y (htrans _ _ _ hm' hy)
      · exact fun k y hy => hnext k y (htrans _ _ _ hm' hy)
    refine ⟨htx auction (List.mem_cons_self ..) m' hm', fun _ => hrest _, ?_⟩
    intro e
    beta_reduce
    split
    · exact hrest _
    · trivial

/-- The task reads an object and goes on with it; without a row for it, it raises. -/
structure Loads {α : Type} (load : (α → ServiceTask) → ServiceTask) (fits : α → Database → Prop) :
    Prop where
  reads : ∀ next, ∃ rest, load next = .look rest ∧
    ∀ s, rest s = .fail .doesNotExist ∨ ∃ x, fits x s ∧ rest s = next x

theorem Loads.issues {α : Type} {load : (α → ServiceTask) → ServiceTask}
    {fits : α → Database → Prop} (h : Loads load fits) {f : α → ServiceTask}
    (hf : ∀ x y, later m y → fits x (rows y) → (f x).Issues rows later P y) :
    (load f).Issues rows later P m := by
  obtain ⟨rest, hload, hrest⟩ := h.reads f
  rw [hload]
  intro y hy
  rcases hrest (rows y) with hnone | ⟨x, hx, hsome⟩
  · rw [hnone]
    trivial
  · rw [hsome]
    exact hf x y hy hx

/-- The object shows what the tables hold. -/
def LoadedPayment.Fits (payment : LoadedPayment) (s : Database) : Prop :=
  payment.row ∈ (s.dossier payment.auction).payments ∧
    ∀ row, payment.cachedAuction = some row → row = (s.dossier payment.auction).row

theorem withPayment_loads (a : AuctionId) (pk : Nat) (selectRelated : Bool) :
    Loads (withPayment a pk selectRelated) fun payment s =>
      payment.auction = a ∧ payment.row.pk = pk ∧ payment.Fits s where
  reads := by
    intro next
    refine ⟨_, rfl, fun s => ?_⟩
    split
    · exact .inl rfl
    · rename_i row hfound
      obtain ⟨hrow, hpk⟩ := Queries.find_key hfound
      refine .inr ⟨_, ⟨rfl, hpk, hrow, fun row' hrow' => ?_⟩, rfl⟩
      cases selectRelated with
      | true => exact (Option.some.inj hrow').symm
      | false => cases hrow'

/-- What follows a notification follows it whether or not there is somebody to notify. -/
theorem notifyTask_issues (hrefl : ∀ x, later x x)
    (htrans : ∀ x y z, later x y → later y z → later x z) {notice : Notice} {next : ServiceTask}
    (hcreate : ∀ user m', P (.createNotification user notice) m')
    (hdeliver : ∀ pk m', P (.deliver pk) m')
    (hnext : ∀ m', later m m' → next.Issues rows later P m') :
    (notifyTask notice next).Issues rows later P m := by
  unfold notifyTask
  split
  · exact hnext m (hrefl m)
  · intro m' hm'
    refine ⟨hcreate _ m', fun v => ?_, fun _ => trivial⟩
    beta_reduce
    split
    · exact fun y hy => ⟨hdeliver _ y, fun _ => hnext y (htrans _ _ _ hm' hy), fun _ => trivial⟩
    · exact hnext m' hm'

theorem markFailed_issues (hrefl : ∀ x, later x x)
    (htrans : ∀ x y z, later x y → later y z → later x z) {payment : LoadedPayment} {actor : UserId}
    {reason : String} (hsave : ∀ m', later m m' → P (.savePaymentFailed payment actor reason) m')
    (hrecord : ∀ m', P (.recordPaymentFailed payment.auction payment.row.pk actor reason) m')
    (hcreate : ∀ user notice m', P (.createNotification user notice) m')
    (hdeliver : ∀ pk m', P (.deliver pk) m') :
    (markFailedTask payment actor reason).Issues rows later P m := by
  have hfinish : ∀ auction m', (notifyTask
      (paymentFailedNotice payment.auction auction payment.row.pk reason)
      (.done (.payment (payment.row.failedWith actor reason)))).Issues rows later P m' :=
    fun _ _ => notifyTask_issues hrefl htrans (fun _ _ => hcreate _ _ _) hdeliver fun _ _ => trivial
  unfold markFailedTask
  split
  · trivial
  split
  · trivial
  intro m₁ hm₁
  refine ⟨hsave m₁ hm₁, fun _ m₂ _ => ⟨hrecord m₂, fun _ => ?_, fun _ => trivial⟩, fun _ => trivial⟩
  split
  · exact hfinish _ m₂
  · exact fun m₃ _ => hfinish _ m₃

/-- The transactions in which a change of the profile `p` is announced. -/
def Announces (p : ProfileRef) (actor : UserId) (l : ServiceTx) : Prop :=
  (∃ action reason, l = .recordProfile p action actor reason) ∨
    (∃ user notice, l = .createNotification user notice) ∨ ∃ pk, l = .deliver pk

theorem announceTask_issues (hrefl : ∀ x, later x x)
    (htrans : ∀ x y z, later x y → later y z → later x z) {p : ProfileRef} {userSelected : Bool}
    {action : AuditAction} {actor : UserId} {reason : String} {notice : Notice} {result : Value}
    (h : ∀ l m', Announces p actor l → P l m') :
    (announceTask p userSelected action actor reason notice result).Issues rows later P m := by
  have hnotify : ∀ m', (notifyTask notice (.done result)).Issues rows later P m' :=
    fun _ => notifyTask_issues hrefl htrans (fun user m' => h _ m' (.inr (.inl ⟨user, notice, rfl⟩)))
      (fun pk m' => h _ m' (.inr (.inr ⟨pk, rfl⟩))) fun _ _ => trivial
  intro m' _
  refine ⟨h _ m' (.inl ⟨action, reason, rfl⟩), fun _ => ?_, fun _ => trivial⟩
  beta_reduce
  split
  · exact hnotify m'
  · exact fun m'' _ => hnotify m''

theorem applyVerification_issues (hrefl : ∀ x, later x x)
    (htrans : ∀ x y z, later x y → later y z → later x z) {profile : Profile} {userSelected : Bool}
    {status : VerificationStatus} {actor : UserId} {reason : String}
    (hsave : ∀ m', P (.saveVerification profile status actor) m')
    (h : ∀ l m', Announces profile.ref actor l → P l m') :
    (applyVerificationTask profile userSelected status actor reason).Issues rows later P m :=
  fun m' _ => ⟨hsave m', fun _ => announceTask_issues hrefl htrans h, fun _ => trivial⟩

theorem withProfile_loads (p : ProfileRef) :
    Loads (withProfile p) fun profile _ => profile.ref = p where
  reads := by
    intro next
    refine ⟨_, rfl, fun s => ?_⟩
    split
    · exact .inl rfl
    · rename_i profile hfound
      exact .inr ⟨profile, profile_ref hfound, rfl⟩

theorem withBidder_loads (u : UserId) : Loads (withBidder u) fun _ _ => True where
  reads := by
    intro next
    refine ⟨_, rfl, fun s => ?_⟩
    split
    · exact .inl rfl
    · exact .inr ⟨_, trivial, rfl⟩

/-- The transactions that a call may issue. -/
def Call.May (call : Call) (l : ServiceTx) : Prop :=
  match call with
  | submitForReview a actor => l = .submitForReview a actor
  | approve a actor reason => l = .approve a actor reason ∨ l = .autoSchedule a actor
  | reject a actor reason => l = .reject a actor reason
  | activateIfDue a actor => l = .activate a actor
  | startNow a actor => l = .startNow a actor
  | reschedule a actor reason startTime endTime => l = .reschedule a actor reason startTime endTime
  | pause a actor reason => l = .pause a actor reason
  | resume a actor => l = .resume a actor
  | cancelAuction a actor reason => l = .cancelAuction a actor reason
  | endNow a actor reason => l = .endNow a actor reason
  | sweepDue actor => (∃ a, l = .activate a actor) ∨ ∃ auction, l = .closeAuction auction actor
  | closeEndedAuctions => ∃ auction, l = .closeAuction auction none
  | activateScheduledAuctions => ∃ a, l = .activate a none
  | placeBid a bidderUser amount => l = .placeBid a bidderUser amount
  | invalidateBid a pk actor reason => l = .invalidateBid a pk actor reason
  | closeAuction a actor => ∃ row, l = .closeAuction ⟨a, row⟩ actor
  | markPaid a _ _ actor method reference notes =>
    ∃ payment, payment.auction = a ∧ l = .markPaid payment actor method reference notes
  | markFailed a _ _ actor reason =>
    (∃ payment, payment.auction = a ∧ l = .savePaymentFailed payment actor reason) ∨
      (∃ pk, l = .recordPaymentFailed a pk actor reason) ∨
      (∃ user notice, l = .createNotification user notice) ∨ ∃ pk, l = .deliver pk
  | openDispute a raisedBy category description => l = .openDispute a raisedBy category description
  | takeForReview a pk actor => l = .takeForReview a pk actor
  | resolveDispute a pk actor outcome notes refund =>
    l = .resolveDispute a pk actor outcome notes refund
  | verifyProfile p _ actor _ | rejectProfile p _ actor _ =>
    (∃ profile status, profile.ref = p ∧ l = .saveVerification profile status actor) ∨
      Announces p actor l
  | suspendBidder u _ actor _ =>
    (∃ row, l = .saveAccountStatus u row .suspended) ∨ Announces (.bidder u) actor l
  | reactivateBidder u _ actor _ =>
    (∃ row, l = .saveAccountStatus u row .active) ∨ Announces (.bidder u) actor l

theorem body_may (hrefl : ∀ x, later x x) (htrans : ∀ x y z, later x y → later y z → later x z)
    (call : Call) (m : X) : (engine.body call).Issues rows later (fun l _ => call.May l) m := by
  cases call with
  | approve a actor reason =>
    exact fun _ _ => ⟨.inl rfl, fun _ => alone_issues fun _ _ => .inr rfl, fun _ => trivial⟩
  | activateIfDue a actor =>
    exact fun _ _ => activateIfDue_issues htrans (fun _ _ _ _ _ _ => rfl) (fun _ _ _ => trivial)
      fun _ _ _ => trivial
  | sweepDue actor =>
    intro _ _ _ _
    apply activateEach_issues hrefl htrans
    · exact fun auction _ _ _ _ _ _ _ => .inl ⟨auction.pk, rfl⟩
    · intro _ _ _ _ _
      exact closeEach_issues hrefl htrans _ 0 (fun auction _ _ _ => .inr ⟨auction, rfl⟩)
        fun _ _ _ => trivial
  | closeEndedAuctions =>
    intro _ _ _ _
    exact closeEach_issues hrefl htrans _ 0 (fun auction _ _ _ => ⟨auction, rfl⟩) fun _ _ _ => trivial
  | activateScheduledAuctions =>
    intro _ _ _ _
    exact activateEach_issues hrefl htrans _ 0 (fun auction _ _ _ _ _ _ _ => ⟨auction.pk, rfl⟩)
      fun _ _ _ => trivial
  | invalidateBid a pk actor reason =>
    intro _ _
    beta_reduce
    split
    · trivial
    · split
      · trivial
      · exact alone_issues fun _ _ => rfl
  | closeAuction a actor => exact fun _ _ => alone_issues fun _ _ => ⟨_, rfl⟩
  | markPaid a pk selectRelated actor method reference notes =>
    exact (withPayment_loads a pk selectRelated).issues fun payment _ _ hfits =>
      alone_issues (l := .markPaid payment actor method reference notes) fun _ _ =>
        ⟨payment, hfits.1, rfl⟩
  | markFailed a pk selectRelated actor reason =>
    have hmark : ∀ (payment : LoadedPayment) (y : X), payment.auction = a →
        (markFailedTask payment actor reason).Issues rows later
          (fun l _ => (Call.markFailed a pk selectRelated actor reason).May l) y := by
      rintro payment y rfl
      exact markFailed_issues hrefl htrans (fun _ _ => .inl ⟨payment, rfl, rfl⟩)
        (fun _ => .inr (.inl ⟨_, rfl⟩)) (fun user notice _ => .inr (.inr (.inl ⟨user, notice, rfl⟩)))
        fun pk _ => .inr (.inr (.inr ⟨pk, rfl⟩))
    exact (withPayment_loads a pk selectRelated).issues fun payment y _ hfits =>
      hmark payment y hfits.1
  | verifyProfile p userSelected actor reason =>
    refine (withProfile_loads p).issues (f := fun profile =>
      verifyProfileTask profile userSelected actor reason) fun profile _ _ hp => ?_
    subst hp
    exact applyVerification_issues hrefl htrans (fun _ => .inl ⟨profile, _, rfl, rfl⟩)
      fun _ _ h => .inr h
  | rejectProfile p userSelected actor reason =>
    refine (withProfile_loads p).issues (f := fun profile =>
      rejectProfileTask profile userSelected actor reason) fun profile _ _ hp => ?_
    subst hp
    unfold rejectProfileTask
    split
    · trivial
    · exact applyVerification_issues hrefl htrans (fun _ => .inl ⟨profile, _, rfl, rfl⟩)
        fun _ _ h => .inr h
  | suspendBidder u userSelected actor reason =>
    refine (withBidder_loads u).issues (f := fun row =>
      suspendBidderTask u row userSelected actor reason) fun row _ _ _ => ?_
    unfold suspendBidderTask
    split
    · trivial
    · exact fun _ _ => ⟨.inl ⟨_, rfl⟩, fun _ => announceTask_issues hrefl htrans fun _ _ h => .inr h,
        fun _ => trivial⟩
  | reactivateBidder u userSelected actor reason =>
    refine (withBidder_loads u).issues (f := fun row =>
      reactivateBidderTask u row userSelected actor reason) fun row _ _ _ => ?_
    exact fun _ _ => ⟨.inl ⟨_, rfl⟩, fun _ => announceTask_issues hrefl htrans fun _ _ h => .inr h,
      fun _ => trivial⟩
  | _ => exact alone_issues fun _ _ => rfl

end Tasks

end MbararaAuction
