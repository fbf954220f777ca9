import MbararaAuction.Model.Views

namespace MbararaAuction

/-- A row of `SellerProfile` with its defaults, inserted at the time `t`. -/
def SellerProfile.inserted (t : Time) : SellerProfile where
  verificationStatus := .pending
  verifiedAt := none
  verifiedBy := none
  updatedAt := t

def BidderProfile.inserted (t : Time) : BidderProfile where
  verificationStatus := .pending
  accountStatus := .active
  verifiedAt := none
  verifiedBy := none
  updatedAt := t

/-- `SellerProfile.objects.get_or_create(user=u)`. -/
def Database.getOrCreateSeller (u : UserId) (s : Database) : Database :=
  { s with sellerProfiles := fun x =>
      if x = u then some ((s.sellerProfiles u).getD (.inserted s.clock)) else s.sellerProfiles x }

/-- `BidderProfile.objects.get_or_create(user=u)`. -/
def Database.getOrCreateBidder (u : UserId) (s : Database) : Database :=
  { s with bidderProfiles := fun x =>
      if x = u then some ((s.bidderProfiles u).getD (.inserted s.clock)) else s.bidderProfiles x }

/-- The receiver of `post_save`. -/
def createRoleProfile (u : UserId) (instance_ : User) (created : Bool) (s : Database) : Database :=
  if created = false then s
  else match instance_.role with
    | .seller => s.getOrCreateSeller u
    | .bidder => s.getOrCreateBidder u
    | .admin | .officer => s

/-- `INSERT` or `UPDATE` of the row of a user. -/
def Database.putUser (u : UserId) (row : User) (s : Database) : Database :=
  { s with userPks := withKey s.userPks u, users := fun x => if x = u then row else s.users x }

/-- `user.save()`, and the receiver after it. The name of a user is unique. -/
def saveUser (u : UserId) (row : User) (s : Database) : Except PyError Database :=
  if s.userPks.any (fun x => x ≠ u && (s.users x).username == row.username) then
    .error (.integrityError "accounts_user_username_key")
  else .ok (createRoleProfile u row (decide (u ∉ s.userPks)) (s.putUser u row))

/-- Nobody comes, goes or changes, and the profiles stay where they are. -/
structure Apart (s t : Database) : Prop where
  users : t.userPks = s.userPks ∧ t.users = s.users
  sellers : ∀ u, (t.sellerProfiles u).isSome = (s.sellerProfiles u).isSome
  bidders : ∀ u, (t.bidderProfiles u).isSome = (s.bidderProfiles u).isSome

/-- What goes on apart from the accounts. -/
def Elsewhere := { f : Database → Database // ∀ s, Apart s (f s) }

/-- A user is created by registration, by the admin site or by `create_user`; a user who is
there is saved, by the change form of `UserAdmin` or otherwise; or something else goes on. -/
inductive AccountEvent where
  | create (u : UserId) (row : User)
  | save (u : UserId) (row : User)
  | elsewhere (change : Elsewhere)

def AccountEvent.step (s : Database) : AccountEvent → Option Database
  | create u row => if u ∈ s.userPks then none else (saveUser u row s).toOption
  | save u row => if u ∈ s.userPks then (saveUser u row s).toOption else none
  | elsewhere change => some (change.val s)

end MbararaAuction
