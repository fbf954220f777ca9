import MbararaAuction.Model.Listings

namespace MbararaAuction
open Transactions

/-- The change form of `AuctionAdmin`: every column outside `readonly_fields`. -/
structure AdminForm extends AuctionForm where
  seller : UserId
  status : Status
deriving DecidableEq, Repr

/-- The form as it is rendered for a row. What a date-time input carries is read back as
`shown` of the column. -/
def AdminForm.of (shown : Time → Time) (row : Auction) : AdminForm where
  toAuctionForm :=
    { AuctionForm.of row with startTime := shown row.startTime, endTime := shown row.endTime }
  seller := row.seller
  status := row.status

/-- What the administrator enters: a new value for every column that is edited. -/
structure AdminEdit where
  seller : Option UserId := none
  category : Option Nat := none
  title : Option String := none
  description : Option String := none
  location : Option String := none
  startingPrice : Option Money := none
  reservePrice : Option (Option Money) := none
  minIncrement : Option Money := none
  startTime : Option Time := none
  endTime : Option Time := none
  extensionMinutes : Option Nat := none
  status : Option Status := none
deriving DecidableEq, Repr

/-- The form as it is submitted: every column goes with it, edited or not. -/
def AdminEdit.fill (edit : AdminEdit) (form : AdminForm) : AdminForm where
  seller := edit.seller.getD form.seller
  category := edit.category.getD form.category
  title := edit.title.getD form.title
  description := edit.description.getD form.description
  location := edit.location.getD form.location
  startingPrice := edit.startingPrice.getD form.startingPrice
  reservePrice := edit.reservePrice.getD form.reservePrice
  minIncrement := edit.minIncrement.getD form.minIncrement
  startTime := edit.startTime.getD form.startTime
  endTime := edit.endTime.getD form.endTime
  extensionMinutes := edit.extensionMinutes.getD form.extensionMinutes
  status := edit.status.getD form.status

/-- The submitted columns, over an object loaded before. The `readonly_fields` stay as
they were loaded. -/
@[simps!] def AdminForm.applyTo (form : AdminForm) (row : Auction) : Auction :=
  { form.toAuctionForm.applyTo row with seller := form.seller, status := form.status }

/-- The transactions of the services, and the save of the change form. -/
inductive AdminTx where
  | service (l : ServiceTx)
  | saveModel (rendered : Auction) (obj : LoadedAuction) (edit : AdminEdit)

/-- `save_model`: the whole row of the object that was loaded. It writes no row of
`AuctionStatusLog`, and the inline adds none. -/
def saveModel (shown : Time → Time) (rendered : Auction) (obj : LoadedAuction) (edit : AdminEdit) :
    Prog Unit :=
  saveAuction obj.pk (fun _ => (edit.fill (AdminForm.of shown rendered)).applyTo obj.row)

def AdminTx.prog (shown : Time → Time) : AdminTx → Prog Value
  | service l => l.prog
  | saveModel rendered obj edit =>
    (fun _ => Value.none) <$> MbararaAuction.saveModel shown rendered obj edit

/-- The change view of `AuctionAdmin`. The first look renders the form, the second one is
the request that submits it: its transaction loads the object, with no lock, and writes
nothing before the save. `accepted` is what the admin site checks of the request itself:
the permissions and the values of the single fields. -/
def changeView (shown : Time → Time) (a : AuctionId) (u : UserId) (edit : AdminEdit)
    (accepted : Bool) : Task Database PyError Value AdminTx :=
  .look fun s =>
    if ¬ ((s.users u).isActive ∧ (s.users u).isStaff) then .fail (.permissionDenied "")
    else
      let rendered := (s.dossier a).row
      .look fun s =>
        let form := edit.fill (AdminForm.of shown rendered)
        if form.modelError.isNone && accepted then
          .tx (.saveModel rendered ⟨a, (s.dossier a).row⟩ edit) .done .fail
        else .done .none

/-- The requests of the services and of the admin site. -/
inductive AdminCall where
  | service (call : Call)
  | change (a : AuctionId) (u : UserId) (edit : AdminEdit) (accepted : Bool)

def AdminCall.body (shown : Time → Time) : AdminCall → Task Database PyError Value AdminTx
  | service call => call.body.relabel .service
  | change a u edit accepted => changeView shown a u edit accepted

/-- The services together with the admin site. -/
def backOffice (shown : Time → Time) :
    System Database RowKey PyError Nat Value AdminTx AdminCall Outside where
  prog := AdminTx.prog shown
  body := AdminCall.body shown
  outside := Outside.apply
  fault := .operationalError

end MbararaAuction
