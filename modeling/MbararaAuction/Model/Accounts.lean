import MbararaAuction.Model.Notifications

namespace MbararaAuction
open Transactions

/-- The columns that `_apply_verification` saves, the last with the time of the save. -/
def SellerProfile.verifiedWith (status : VerificationStatus) (actor : UserId) (t saved : Time)
    (p : SellerProfile) : SellerProfile :=
  { p with verificationStatus := status, verifiedAt := some t, verifiedBy := some actor,
           updatedAt := saved }

def BidderProfile.verifiedWith (status : VerificationStatus) (actor : UserId) (t saved : Time)
    (p : BidderProfile) : BidderProfile :=
  { p with verificationStatus := status, verifiedAt := some t, verifiedBy := some actor,
           updatedAt := saved }

def Profile.verifiedWith (status : VerificationStatus) (actor : UserId) (t saved : Time) :
    Profile → Profile
  | seller u row => .seller u (row.verifiedWith status actor t saved)
  | bidder u row => .bidder u (row.verifiedWith status actor t saved)

def BidderProfile.withAccountStatus (status : AccountStatus) (saved : Time) (p : BidderProfile) :
    BidderProfile :=
  { p with accountStatus := status, updatedAt := saved }

def Database.onSeller (u : UserId) (f : SellerProfile → SellerProfile) (s : Database) : Database :=
  { s with sellerProfiles := fun x => if x = u then (s.sellerProfiles u).map f
      else s.sellerProfiles x }

def Database.onBidder (u : UserId) (f : BidderProfile → BidderProfile) (s : Database) : Database :=
  { s with bidderProfiles := fun x => if x = u then (s.bidderProfiles u).map f
      else s.bidderProfiles x }

/-- The profile under its key. -/
def Database.profile (s : Database) : ProfileRef → Option Profile
  | .seller u => (s.sellerProfiles u).map (.seller u)
  | .bidder u => (s.bidderProfiles u).map (.bidder u)

theorem profile_ref {s : Database} {p : ProfileRef} {profile : Profile}
    (h : s.profile p = some profile) : profile.ref = p := by
  cases p <;> obtain ⟨row, _, rfl⟩ := Option.map_eq_some_iff.mp h <;> rfl

/-- The profile row under its key, with the columns of `_apply_verification`. -/
def Database.verify (p : ProfileRef) (status : VerificationStatus) (actor : UserId)
    (t saved : Time) : Database → Database :=
  match p with
  | .seller u => .onSeller u (.verifiedWith status actor t saved)
  | .bidder u => .onBidder u (.verifiedWith status actor t saved)

/-- The save of `_apply_verification`. No function of this module is atomic: this
statement, the audit row and the notification are committed one by one. -/
def saveVerification (profile : Profile) (status : VerificationStatus) (actor : UserId) :
    Prog Profile := do
  let t ← now
  let saved ← now
  Tx.acquire (.profile profile.ref)
  Tx.update (.verify profile.ref status actor t saved)
  pure (profile.verifiedWith status actor t saved)

/-- The save of `suspend_bidder` and `reactivate_bidder`. -/
def saveAccountStatus (u : UserId) (row : BidderProfile) (status : AccountStatus) :
    Prog Profile := do
  let saved ← now
  Tx.acquire (.profile (.bidder u))
  Tx.update (.onBidder u (.withAccountStatus status saved))
  pure (.bidder u (row.withAccountStatus status saved))

def recordProfile (p : ProfileRef) (action : AuditAction) (actor : UserId) (reason : String) :
    Prog Unit :=
  record (some actor) action p.obj reason

/-- A notice to the user behind a profile. -/
def Notice.account (p : ProfileRef) (event : NotificationEvent) (title message : String) : Notice :=
  ⟨some p.user, event, title, message, p.obj, ""⟩

/-- What `notify_account_verified` passes to `notify`. -/
def accountVerifiedNotice (p : ProfileRef) : Notice :=
  .account p .accountVerified "Account verified"
    "Your account has been verified. You now have full access."

def accountRejectedNotice (p : ProfileRef) (reason : String) : Notice :=
  .account p .accountRejected "Account verification rejected"
    ("Your account verification was rejected." ++ reasonSuffix reason)

def bidderSuspendedNotice (u : UserId) (reason : String) : Notice :=
  .account (.bidder u) .accountSuspended "Account suspended"
    ("Your bidder account has been suspended." ++ reasonSuffix reason)

def bidderReactivatedNotice (u : UserId) : Notice :=
  .account (.bidder u) .accountReactivated "Account reactivated"
    "Your bidder account has been reactivated."

end MbararaAuction
