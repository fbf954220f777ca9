import MbararaAuction.Model.Services
import MbararaAuction.Transactions.Batches

namespace MbararaAuction
open Transactions

/-- What others commit. No time passes while they do. -/
def Change := { f : World Database Nat → World Database Nat // ∀ w, (f w).db.clock = w.db.clock }

/-- What others commit while the two loops are under way: before each turn, and
between the loops. -/
structure Meanwhile where
  starting : AuctionId → Change
  between : Change
  closing : AuctionId → Change

def Meanwhile.nothing : Meanwhile where
  starting := fun _ => ⟨id, fun _ => rfl⟩
  between := ⟨id, fun _ => rfl⟩
  closing := fun _ => ⟨id, fun _ => rfl⟩

abbrev AuctionTurn := Turn LoadedAuction (World Database Nat)

/-- One turn of the loops over the auctions that are due to start. -/
def startTurn (auction : LoadedAuction) (w : World Database Nat) :
    Except PyError Value × World Database Nat :=
  (activateIfDue auction none .done .fail).run engine w

/-- One turn of the loops over the auctions that are due to close. -/
def closeTurn (auction : LoadedAuction) (w : World Database Nat) :
    Except PyError Value × World Database Nat :=
  (ServiceTx.closeAuction auction none).alone.run engine w

/-- The turns of the two loops, and where they ended. -/
structure Sweeping where
  started : List AuctionTurn
  closed : List AuctionTurn
  last : World Database Nat

/-- The loop over the auctions that are due to start. -/
def startDue (catches : PyError → Bool) (m : Meanwhile) (w : World Database Nat) :
    Batch LoadedAuction (World Database Nat) :=
  batch startTurn catches (fun x => (m.starting x.pk).val) true
    (auctionsWhere w.db (dueToStart w.db.clock)) w

/-- The loop over the auctions that are due to close at `t`. -/
def closeDue (catches : PyError → Bool) (m : Meanwhile) (t : Time) (going : Bool)
    (w : World Database Nat) : Batch LoadedAuction (World Database Nat) :=
  batch closeTurn catches (fun x => (m.closing x.pk).val) going
    (auctionsWhere w.db (dueToClose t)) w

/-- `sweep_due()` while others make their changes. -/
def sweepAmid (m : Meanwhile) (w : World Database Nat) : Sweeping :=
  let first := startDue PyError.isValidationError m w
  let second := closeDue (fun e => e.isValueError || e.isInvalidTransition) m w.db.clock first.going
    (m.between.val first.last)
  ⟨first.turns, second.turns, second.last⟩

/-- `activate_scheduled_auctions`, then `close_ended_auctions`, while others make the
same changes. -/
def commandsAmid (m : Meanwhile) (w : World Database Nat) : Sweeping :=
  let first := startDue (fun _ => false) m w
  let between := m.between.val first.last
  let second := closeDue (fun _ => false) m between.db.clock true between
  ⟨first.turns, second.turns, second.last⟩

end MbararaAuction
