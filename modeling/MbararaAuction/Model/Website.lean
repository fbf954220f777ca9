import MbararaAuction.Model.Control
import MbararaAuction.Model.Decimals
import MbararaAuction.Model.DisputePages
import MbararaAuction.Model.Listings
import MbararaAuction.Transactions.Scripts

namespace MbararaAuction
open Transactions

/-- The pages to which views redirect. -/
inductive Place where
  | auction (a : AuctionId)
  | control (a : AuctionId)
  | controlDashboard
  | myListings
  | approvalQueue
  | paymentQueue
  | verificationQueue
  | dispute (pk : Nat)
deriving DecidableEq, Repr

inductive MessageLevel where
  | success | warning | error
deriving DecidableEq, Repr

/-- What `messages.success` and its siblings leave for the next page. -/
structure Message where
  level : MessageLevel
  text : String
deriving DecidableEq, Repr

/-- What a request is answered with when nothing is raised. The exceptions `Http404` and
`PermissionDenied` are answers too. -/
inductive Answer where
  | redirect (place : Place) (messages : List Message)
  | disputeForm (a : AuctionId) (errors : List String) (messages : List Message)
  | login
  | forbidden (message : String)
  | notFound (message : String)
  | finished
deriving DecidableEq, Repr

/-- The code of a view: it reads, calls services, and answers. -/
abbrev PostView := Script Database PyError Value Answer Call

/-- `request.user`, loaded by its key in the session; nobody where the account is inactive. -/
def requestUser (s : Database) (session : Option UserId) : Option (UserId × User) :=
  session.bind fun u =>
    if u ∈ s.userPks ∧ (s.users u).isActive = true then some (u, s.users u) else none

theorem requestUser_eq {s : Database} {u : UserId} (h : u ∈ s.userPks ∧ (s.users u).isActive = true) :
    requestUser s (some u) = some (u, s.users u) := if_pos h

/-- `LoginRequiredMixin`. -/
def loginRequired (session : Option UserId) (view : UserId → User → PostView) : PostView :=
  .look fun s =>
    match requestUser s session with
    | none => .answer .login
    | some (u, user) => view u user

/-- The mixins that test the user and raise. -/
def testRequired (test : User → Bool) (session : Option UserId) (view : UserId → User → PostView) :
    PostView :=
  .look fun s =>
    match requestUser s session with
    | none => .answer (.forbidden "")
    | some (u, user) => if test user then view u user else .answer (.forbidden "")

/-- `RoleRequiredMixin` with one allowed role. -/
def roleRequired (role : Role) : Option UserId → (UserId → User → PostView) → PostView :=
  testRequired fun user => user.isOfficerOrAdmin || user.role == role

/-- `StaffOrOfficerRequiredMixin`. -/
def staffOrOfficerRequired (session : Option UserId) (view : UserId → PostView) : PostView :=
  testRequired User.isOfficerOrAdmin session fun u _ => view u

def noMatch (model : String) : PostView := .answer (.notFound s!"No {model} matches the given query.")

/-- `get_object_or_404(Auction, pk=a)`. -/
def getAuction (a : AuctionId) (next : Auction → PostView) : PostView :=
  .look fun s => if a ∈ s.auctionPks then next (s.dossier a).row else noMatch "Auction"

/-- The rows of `Payment`, each with the auction that it is for. -/
def allPayments (s : Database) : List (AuctionId × Payment) :=
  s.auctionPks.flatMap fun a => (s.dossier a).payments.map fun payment => (a, payment)

/-- `get_object_or_404(Payment, pk=pk)`. The call that follows loads the row. -/
def getPayment (pk : Nat) (next : AuctionId → PostView) : PostView :=
  .look fun s =>
    match (allPayments s).find? (fun x => x.2.pk = pk) with
    | none => noMatch "Payment"
    | some (a, _) => next a

/-- `get_object_or_404(Dispute, pk=pk)`. -/
def getDispute (pk : Nat) (next : AuctionId → PostView) : PostView :=
  .look fun s =>
    match (allDisputes s).find? (fun x => x.2.pk = pk) with
    | none => noMatch "Dispute"
    | some (a, _) => next a

/-- One message, and back to a page. -/
def back (place : Place) (level : MessageLevel) (text : String) : PostView :=
  .answer (.redirect place [⟨level, text⟩])

/-- A `try` around one call. The text of the exceptions that the view handles is `caught`. -/
def tryCall (c : Call) (caught : PyError → Option String) (ok : Value → PostView)
    (handle : String → PostView) : PostView :=
  .call c fun out =>
    match out with
    | .ok v => ok v
    | .error e =>
      match caught e with
      | some text => handle text
      | none => .fail e

/-- `except InvalidTransition as exc`, and `str(exc)`: a list of one message. -/
def invalidTransitionText : PyError → Option String
  | .invalidTransition message => some ("['" ++ message ++ "']")
  | _ => none

/-- `except ValueError as exc`. -/
def valueErrorText : PyError → Option String
  | .valueError message | .schedulingError message => some message
  | _ => none

/-- `except BidRejected as exc`. -/
def bidRejectedText : PyError → Option String
  | .bidRejected message => some message
  | _ => none

/-- The exceptions of `_ActionView`, and `_message`. -/
def actionText : PyError → Option String
  | .valueError message | .schedulingError message | .invalidTransition message
  | .validationError message => some message
  | _ => none

def nothingCaught (_ : PyError) : Option String := none

section Listings
variable (session : Option UserId) (a : AuctionId)

/-- `SubmitListingView.post`. -/
def submitListingView : PostView :=
  roleRequired .seller session fun u user =>
    getAuction a fun auction =>
      if mayAccess user u auction.seller then
        tryCall (.submitForReview a u) invalidTransitionText
          (fun _ => back .myListings .success "Listing submitted for review.")
          (back .myListings .error)
      else .answer (.forbidden "You do not have permission to access this object.")

/-- `ApproveListingView.post`. -/
def approveListingView (reason : String) : PostView :=
  staffOrOfficerRequired session fun u =>
    getAuction a fun auction =>
      tryCall (.approve a u reason) invalidTransitionText
        (fun _ => back .approvalQueue .success s!"'{auction.title}' approved and scheduled.")
        (back .approvalQueue .error)

/-- `RejectListingView.post`. -/
def rejectListingView (reason : String) : PostView :=
  staffOrOfficerRequired session fun u =>
    getAuction a fun auction =>
      if reason = "" then
        back .approvalQueue .error "A reason is required to reject a listing."
      else
        tryCall (.reject a u reason) invalidTransitionText
          (fun _ => back .approvalQueue .warning s!"'{auction.title}' rejected.")
          (back .approvalQueue .error)

end Listings

/-- `PlaceBidView.post`. -/
def placeBidView (session : Option UserId) (a : AuctionId) (rawAmount : String) : PostView :=
  roleRequired .bidder session fun u _ =>
    getAuction a fun _ =>
      match Decimal.ofText rawAmount with
      | none => back (.auction a) .error "Enter a valid bid amount."
      | some amount =>
        tryCall (.placeBid a u (.decimal amount)) bidRejectedText
          (fun _ => back (.auction a) .success s!"Bid of {amount.text} placed successfully.")
          (back (.auction a) .error)

section Control
variable (session : Option UserId) (a : AuctionId)

/-- `_ActionView.post`: a form that is not valid raises before any call. -/
def actionView (success : String) (run : UserId → Except PyError Call) : PostView :=
  staffOrOfficerRequired session fun u =>
    getAuction a fun _ =>
      match run u with
      | .ok call => tryCall call actionText (fun _ => back (.control a) .success success)
          (back (.control a) .error)
      | .error e =>
        match actionText e with
        | some text => back (.control a) .error text
        | none => .fail e

def startNowView : PostView :=
  actionView session a "Auction is now live." fun u => .ok (.startNow a u)

def pauseView (reason : String) : PostView :=
  actionView session a "Auction paused." fun u => .ok (.pause a u reason)

def resumeView : PostView :=
  actionView session a "Auction resumed." fun u => .ok (.resume a u)

def cancelView (reason : String) : PostView :=
  actionView session a "Auction cancelled." fun u => .ok (.cancelAuction a u reason)

def endNowView (reason : String) : PostView :=
  actionView session a "Auction closed and the winner (if any) has been determined."
    fun u => .ok (.endNow a u reason)

/-- `RescheduleView`. -/
def reschedulePostView (parseDatetime : String → Option Time) (post : ReschedulePost) : PostView :=
  actionView session a "Schedule updated. The seller and bidders have been notified." fun u =>
    (rescheduleForm parseDatetime post).map fun form =>
      .reschedule a u form.reason form.startTime form.endTime

def sweepText : Value → String
  | .counts started closed =>
    s!"Sweep complete: {started} auction(s) started, {closed} closed."
  | _ => ""

/-- `SweepView.post`. -/
def sweepView : PostView :=
  staffOrOfficerRequired session fun u =>
    tryCall (.sweepDue (some u)) nothingCaught
      (fun v => back .controlDashboard .success (sweepText v)) (back .controlDashboard .error)

end Control

section Payments
variable (session : Option UserId) (pk : Nat)

def paymentTitle (a : AuctionId) (text : String → PostView) : PostView :=
  .look fun s => text (s.dossier a).row.title

/-- `RecordPaymentPaidView.post`. -/
def recordPaymentPaidView (method reference notes : String) : PostView :=
  staffOrOfficerRequired session fun u =>
    getPayment pk fun a =>
      tryCall (.markPaid a pk false u method reference notes) valueErrorText
        (fun _ => paymentTitle a fun title =>
          back .paymentQueue .success s!"Payment for '{title}' recorded as paid.")
        (back .paymentQueue .error)

/-- `RecordPaymentFailedView.post`. -/
def recordPaymentFailedView (reason : String) : PostView :=
  staffOrOfficerRequired session fun u =>
    getPayment pk fun a =>
      if reason = "" then
        back .paymentQueue .error "A reason is required to mark a payment failed."
      else
        tryCall (.markFailed a pk false u reason) valueErrorText
          (fun _ => paymentTitle a fun title =>
            back .paymentQueue .warning s!"Payment for '{title}' marked as failed.")
          (back .paymentQueue .error)

end Payments

section Disputes
variable (session : Option UserId)

/-- `can_raise_dispute` on an auction loaded before, a query for each of its questions. -/
def askRaiseDispute (u : UserId) (a : AuctionId) (auction : Auction) (yes no : PostView) : PostView :=
  if disputable auction.status = false then no
  else .look fun s =>
    if (s.dossier a).disputes.any Dispute.isActive then no
    else .look fun s => if u ∈ auctionParticipants auction (s.dossier a).bids then yes else no

/-- `ChoiceField.clean` of the category. -/
def cleanCategory (value : String) : Except String String :=
  if value = "" then .error "This field is required."
  else match Category.ofValue value with
    | some _ => .ok value
    | none => .error s!"Select a valid choice. {value} is not one of the available choices."

/-- The field `description` of the form for a dispute. -/
def cleanDescription (value : String) : Except String String := cleanText 3000 value

def disputePk : Value → Nat
  | .dispute dispute => dispute.pk
  | _ => 0

/-- `DisputeCreateView.post`. -/
def disputeCreateView (a : AuctionId) (category description : String) : PostView :=
  loginRequired session fun u _ =>
    getAuction a fun auction =>
      askRaiseDispute u a auction
        (match cleanCategory category, cleanDescription description with
        | .ok category, .ok description =>
          .call (.openDispute a u category description) fun out =>
            match out with
            | .ok v => back (.dispute (disputePk v)) .success
                "Your dispute has been submitted. Staff will review it."
            | .error (.permissionError message) => .answer (.forbidden message)
            | .error e =>
              match valueErrorText e with
              | some text => .answer (.disputeForm a [] [⟨.error, text⟩])
              | none => .fail e
        | category, description =>
          .answer (.disputeForm a
            (fieldError "category" category ++ fieldError "description" description) []))
        (.answer (.forbidden "You cannot raise a dispute on this auction."))

/-- `TakeDisputeView.post`. -/
def takeDisputeView (pk : Nat) : PostView :=
  staffOrOfficerRequired session fun u =>
    getDispute pk fun a =>
      tryCall (.takeForReview a pk u) valueErrorText
        (fun _ => back (.dispute pk) .success s!"Dispute #{pk} assigned to you.")
        (back (.dispute pk) .error)

/-- `ResolveDisputeView.post`. -/
def resolveDisputeView (pk : Nat) (outcome notes refund : String) : PostView :=
  staffOrOfficerRequired session fun u =>
    getDispute pk fun a =>
      tryCall (.resolveDispute a pk u outcome notes (refund == "on")) valueErrorText
        (fun _ => back (.dispute pk) .success s!"Dispute #{pk} resolved.")
        (back (.dispute pk) .error)

end Disputes

def ProfileRef.kind : ProfileRef → String
  | seller _ => "Seller"
  | bidder _ => "Bidder"

def ProfileRef.noun : ProfileRef → String
  | seller _ => "seller"
  | bidder _ => "bidder"

/-- The body of `VerifySellerView.post` and of `VerifyBidderView.post`. -/
def verifyView (p : ProfileRef) (session : Option UserId) (decision reason : String) : PostView :=
  staffOrOfficerRequired session fun u =>
    .look fun s =>
      if s.profile p = none then noMatch s!"{p.kind}Profile"
      else if decision = "approve" then
        tryCall (.verifyProfile p false u reason) nothingCaught
          (fun _ => .look fun s => back .verificationQueue .success
            s!"{p.kind} {(s.users p.user).username} verified.")
          (back .verificationQueue .error)
      else if decision = "reject" then
        if reason = "" then
          back .verificationQueue .error s!"A reason is required to reject a {p.noun}."
        else
          tryCall (.rejectProfile p false u reason) nothingCaught
            (fun _ => .look fun s => back .verificationQueue .warning
              s!"{p.kind} {(s.users p.user).username} rejected.")
            (back .verificationQueue .error)
      else .answer (.redirect .verificationQueue [])

/-- `VerifySellerView.post`. -/
def verifySellerView (u : UserId) : Option UserId → String → String → PostView := verifyView (.seller u)

/-- `VerifyBidderView.post`. -/
def verifyBidderView (u : UserId) : Option UserId → String → String → PostView := verifyView (.bidder u)

/-- A management command: what it raises ends it. -/
def command (c : Call) : PostView :=
  tryCall c nothingCaught (fun _ => .answer .finished) fun _ => .answer .finished

/-- What a browser posts. The texts that are kept hold no NUL character, which the database
refuses; where this matters it is `Post.Storable`. -/
inductive Post where
  | submitListing (a : AuctionId)
  | approveListing (a : AuctionId) (reason : String)
  | rejectListing (a : AuctionId) (reason : String)
  | placeBid (a : AuctionId) (amount : String)
  | startNow (a : AuctionId)
  | pause (a : AuctionId) (reason : String)
  | resume (a : AuctionId)
  | cancel (a : AuctionId) (reason : String)
  | endNow (a : AuctionId) (reason : String)
  | reschedule (a : AuctionId) (post : ReschedulePost)
  | sweep
  | recordPaymentPaid (pk : Nat) (method reference notes : String)
  | recordPaymentFailed (pk : Nat) (reason : String)
  | disputeCreate (a : AuctionId) (category description : String)
  | takeDispute (pk : Nat)
  | resolveDispute (pk : Nat) (outcome notes refund : String)
  | verifySeller (u : UserId) (decision reason : String)
  | verifyBidder (u : UserId) (decision reason : String)

/-- The texts that the database is asked to keep for a request. -/
def Post.texts : Post → List String
  | approveListing _ reason | rejectListing _ reason | pause _ reason | cancel _ reason
  | endNow _ reason | recordPaymentFailed _ reason | verifySeller _ _ reason
  | verifyBidder _ _ reason => [reason]
  | reschedule _ post => [post.reason]
  | recordPaymentPaid _ method reference notes => [method, reference, notes]
  | disputeCreate _ _ description => [description]
  | resolveDispute _ _ notes _ => [notes]
  | submitListing _ | placeBid _ _ | startNow _ | resume _ | sweep | takeDispute _ => []

/-- The database refuses a NUL character; the services of the model keep any text. -/
def Post.Storable (request : Post) : Prop := ∀ text ∈ request.texts, nul ∉ text.toList

instance (request : Post) : Decidable request.Storable := by
  unfold Post.Storable
  infer_instance

/-- A request with the user key of its session, or a command of the timers. -/
inductive WebCall where
  | post (session : Option UserId) (request : Post)
  | closeEndedAuctions
  | activateScheduledAuctions

section Website
variable (parseDatetime : String → Option Time)

def Post.view (session : Option UserId) : Post → PostView
  | submitListing a => submitListingView session a
  | approveListing a reason => approveListingView session a reason
  | rejectListing a reason => rejectListingView session a reason
  | placeBid a amount => placeBidView session a amount
  | startNow a => startNowView session a
  | pause a reason => pauseView session a reason
  | resume a => resumeView session a
  | cancel a reason => cancelView session a reason
  | endNow a reason => endNowView session a reason
  | reschedule a post => reschedulePostView session a parseDatetime post
  | sweep => sweepView session
  | recordPaymentPaid pk method reference notes =>
    recordPaymentPaidView session pk method reference notes
  | recordPaymentFailed pk reason => recordPaymentFailedView session pk reason
  | disputeCreate a category description => disputeCreateView session a category description
  | takeDispute pk => takeDisputeView session pk
  | resolveDispute pk outcome notes refund => resolveDisputeView session pk outcome notes refund
  | verifySeller u decision reason => verifySellerView u session decision reason
  | verifyBidder u decision reason => verifyBidderView u session decision reason

def WebCall.view : WebCall → PostView
  | post session request => request.view parseDatetime session
  | closeEndedAuctions => command .closeEndedAuctions
  | activateScheduledAuctions => command .activateScheduledAuctions

/-- The covered part of the website, above the services: the views of the requests in `Post` and
the commands of the timers. New listings, their edits, registration and the inbox are not in it. -/
def website : System Database RowKey PyError Nat (Value ⊕ Answer) ServiceTx WebCall Outside :=
  engine.layer (WebCall.view parseDatetime)

end Website

end MbararaAuction
