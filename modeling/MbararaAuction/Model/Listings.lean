import MbararaAuction.Model.Services

namespace MbararaAuction
open Transactions

/-- The cleaned data of `AuctionForm`. -/
structure AuctionForm where
  category : Nat
  title : String
  description : String
  location : String
  startingPrice : Money
  reservePrice : Option Money
  minIncrement : Money
  startTime : Time
  endTime : Time
  extensionMinutes : Nat
deriving DecidableEq, Repr

/-- The form as it is rendered for a row. -/
def AuctionForm.of (row : Auction) : AuctionForm where
  category := row.category
  title := row.title
  description := row.description
  location := row.location
  startingPrice := row.startingPrice
  reservePrice := row.reservePrice
  minIncrement := row.minIncrement
  startTime := row.startTime
  endTime := row.endTime
  extensionMinutes := row.extensionMinutes

/-- The error of `AuctionForm.clean`. -/
def AuctionForm.cleanError (form : AuctionForm) : Option String :=
  if form.endTime ≤ form.startTime then some "Start time must be before end time."
  else match form.reservePrice with
    | some reserve =>
      if reserve < form.startingPrice then
        some "Reserve price cannot be lower than the starting price."
      else none
    | none => none

/-- The error of `Auction.clean`, which the form runs on the row it is about to save. -/
def AuctionForm.modelError (form : AuctionForm) : Option String :=
  if form.endTime ≤ form.startTime then
    some "Auction start_time must be before end_time (Section 39)."
  else if form.startingPrice ≤ 0 then some "starting_price must be positive (Section 39)."
  else if form.minIncrement ≤ 0 then some "min_increment must be positive (Section 39)."
  else none

def AuctionForm.isValid (form : AuctionForm) : Bool :=
  form.cleanError.isNone && form.modelError.isNone

/-- The columns of the form, over an object loaded before. -/
@[simps] def AuctionForm.applyTo (form : AuctionForm) (row : Auction) : Auction :=
  { row with
    category := form.category, title := form.title, description := form.description
    location := form.location, startingPrice := form.startingPrice
    reservePrice := form.reservePrice, minIncrement := form.minIncrement
    startTime := form.startTime, endTime := form.endTime
    extensionMinutes := form.extensionMinutes }

/-- The transactions of the site: those of the services, and `form.save()`. -/
inductive PortalTx where
  | service (l : ServiceTx)
  | saveForm (auction : LoadedAuction) (form : AuctionForm)

/-- `form.save()` updates every column of the row with those of the loaded object. -/
def saveForm (auction : LoadedAuction) (form : AuctionForm) : Prog Unit :=
  saveAuction auction.pk (fun _ => form.applyTo auction.row)

def PortalTx.prog : PortalTx → Prog Value
  | service l => l.prog
  | saveForm auction form => (fun _ => Value.none) <$> MbararaAuction.saveForm auction form

/-- A task of the services among the transactions of the site. -/
def lift : ServiceTask → Task Database PyError Value PortalTx
  | .done v => .done v
  | .fail e => .fail e
  | .look rest => .look (fun s => lift (rest s))
  | .tx l ok err => .tx (.service l) (fun v => lift (ok v)) (fun e => lift (err e))

/-- `check_owner`. -/
def mayAccess (user : User) (u owner : UserId) : Bool := user.isOfficerOrAdmin || u == owner

/-- `AuctionEditView.post`: the row is loaded and checked, then the whole of it is
written, with no transaction around the two. -/
def editPost (a : AuctionId) (u : UserId) (form : AuctionForm) (imagesValid : Bool) :
    Task Database PyError Value PortalTx :=
  .look fun s =>
    let user := s.users u
    let row := (s.dossier a).row
    if ¬ (user.isOfficerOrAdmin ∨ user.role = .seller) then .fail (.permissionDenied "")
    else if ¬ mayAccess user u row.seller then
      .fail (.permissionDenied "You do not have permission to access this object.")
    else if row.status ≠ .draft then
      .fail (.permissionDenied "This listing can no longer be edited (it has left DRAFT status).")
    else if form.isValid && imagesValid then .tx (.saveForm ⟨a, row⟩ form) .done .fail
    else .done .none

/-- The requests of the site. -/
inductive PortalCall where
  | service (call : Call)
  | edit (a : AuctionId) (u : UserId) (form : AuctionForm) (imagesValid : Bool)

def PortalCall.body : PortalCall → Task Database PyError Value PortalTx
  | service call => lift call.body
  | edit a u form imagesValid => editPost a u form imagesValid

/-- The services together with the listing editor. -/
def portal : System Database RowKey PyError Nat Value PortalTx PortalCall Outside where
  prog := PortalTx.prog
  body := PortalCall.body
  outside := Outside.apply
  fault := .operationalError

end MbararaAuction
