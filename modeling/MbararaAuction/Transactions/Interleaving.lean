import Mathlib.Logic.Function.Basic
import MbararaAuction.Transactions.Program

namespace Transactions

/-- A process: between transactions, or inside the transaction named `l` with
`rest` still to run. `work` holds its uncommitted writes. -/
inductive Session (S K E M R L C : Type) where
  | idle
  | ready (call : C) (task : Task S E R L)
  | busy (call : C) (l : L) (rest : Tx S K E M R) (work : S → S)
      (ok : R → Task S E R L) (err : E → Task S E R L)

/-- Any number of processes over one database. The table of locks names the
owner of every locked row, so a lock is exclusive. -/
structure Config (S K E M R L C : Type) where
  world : World S M
  locks : K → Option Nat
  sessions : Nat → Session S K E M R L C

/-- One thing that happens: the outside acts, a process is given a call, makes its
next move, is struck by a fault, or disappears. -/
inductive Event (C V : Type) where
  | outside (v : V)
  | call (i : Nat) (c : C)
  | act (i : Nat)
  | fault (i : Nat)
  | crash (i : Nat)

section Steps
variable {S K E M R L C V : Type} [DecidableEq K]

abbrev Config.db (c : Config S K E M R L C) : S := c.world.db

def Config.place (c : Config S K E M R L C) (i : Nat) (x : Session S K E M R L C) :
    Config S K E M R L C :=
  { c with sessions := Function.update c.sessions i x }

def Config.write (c : Config S K E M R L C) (db : S) : Config S K E M R L C :=
  { c with world := { c.world with db := db } }

/-- The end of a transaction, however it ends. -/
def Config.release (c : Config S K E M R L C) (i : Nat) : Config S K E M R L C :=
  { c with locks := fun k => if c.locks k = some i then none else c.locks k }

def Config.take (c : Config S K E M R L C) (i : Nat) (k : K) : Config S K E M R L C :=
  { c with locks := Function.update c.locks k (some i) }

/-- The next statement of a transaction. Its statements see the committed rows
with its own writes on top; a lock that another process holds makes it wait. -/
def Config.advance (c : Config S K E M R L C) (i : Nat) (call : C) (l : L)
    (rest : Tx S K E M R) (work : S → S) (ok : R → Task S E R L) (err : E → Task S E R L) :
    Option (Config S K E M R L C) :=
  match rest with
  | .ret r => some (((c.write (work c.db)).release i).place i (.ready call (ok r)))
  | .raise e => some ((c.release i).place i (.ready call (err e)))
  | .lock k p =>
    if c.locks k = none ∨ c.locks k = some i then
      some ((c.take i k).place i (.busy call l p work ok err))
    else none
  | .stmt f p => some (c.place i (.busy call l (p (work c.db)) (f ∘ work) ok err))
  | .peek p => some (c.place i (.busy call l (p (work c.db)) work ok err))
  | .fresh p =>
    some ({ c with world := { c.world with seq := c.world.seq + 1 } }.place i
      (.busy call l (p c.world.seq) work ok err))
  | .publish m p =>
    some ({ c with world := { c.world with queue := c.world.queue ++ [m] } }.place i
      (.busy call l p work ok err))

variable (sys : System S K E M R L C V)

def System.act (c : Config S K E M R L C) (i : Nat) : Option (Config S K E M R L C) :=
  match c.sessions i with
  | .idle => none
  | .ready call task =>
    match task with
    | .done _ | .fail _ => none
    | .look rest => some (c.place i (.ready call (rest c.db)))
    | .tx l ok err => some (c.place i (.busy call l (sys.prog l) id ok err))
  | .busy call l rest work ok err => c.advance i call l rest work ok err

/-- A statement fails: inside a transaction everything is rolled back first. -/
def System.strike (c : Config S K E M R L C) (i : Nat) : Option (Config S K E M R L C) :=
  match c.sessions i with
  | .idle => none
  | .ready call task =>
    match task with
    | .done _ | .fail _ => none
    | .look _ => some (c.place i (.ready call (.fail sys.fault)))
    | .tx _ _ err => some (c.place i (.ready call (err sys.fault)))
  | .busy call _ _ _ _ err => some ((c.release i).place i (.ready call (err sys.fault)))

/-- One event of the interleaved system, or `none` where it cannot happen. -/
def System.step (c : Config S K E M R L C) : Event C V → Option (Config S K E M R L C)
  | .outside v => some (c.write (sys.outside v c.db))
  | .call i call =>
    match c.sessions i with
    | .idle => some (c.place i (.ready call (sys.body call)))
    | _ => none
  | .act i => sys.act c i
  | .fault i => sys.strike c i
  | .crash i =>
    match c.sessions i with
    | .idle => none
    | _ => some ((c.release i).place i .idle)

/-- No process yet, no lock taken. -/
def Config.initial (db : S) : Config S K E M R L C where
  world := ⟨db, 0, []⟩
  locks := fun _ => none
  sessions := fun _ => .idle

/-- The call and the transaction that this event commits, if it commits one. -/
def Config.commits (c : Config S K E M R L C) : Event C V → Option (C × L)
  | .act i =>
    match c.sessions i with
    | .busy call l (.ret _) _ _ _ => some (call, l)
    | _ => none
  | _ => none

/-- The call, the transaction and the exception with which this event ends it. -/
def Config.raises (c : Config S K E M R L C) : Event C V → Option (C × L × E)
  | .act i =>
    match c.sessions i with
    | .busy call l (.raise e) _ _ _ => some (call, l, e)
    | _ => none
  | _ => none

end Steps

end Transactions
