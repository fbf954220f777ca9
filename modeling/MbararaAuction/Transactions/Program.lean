namespace Transactions

/-- The body of one database transaction over the database states `S`, with row
locks `K`, exceptions `E` and broker messages `M`.

A `stmt` is a statement whose rows are protected by a lock already taken; a
`peek` reads rows that nothing protects. The two run alike. `fresh` draws from a
sequence and `publish` talks to the broker: neither is undone by a rollback. -/
inductive Tx (S K E M α : Type) where
  | ret (a : α)
  | raise (e : E)
  | lock (k : K) (rest : Tx S K E M α)
  | stmt (write : S → S) (rest : S → Tx S K E M α)
  | peek (rest : S → Tx S K E M α)
  | fresh (rest : Nat → Tx S K E M α)
  | publish (m : M) (rest : Tx S K E M α)

namespace Tx
variable {S K E M α β : Type}

protected def bind : Tx S K E M α → (α → Tx S K E M β) → Tx S K E M β
  | ret a, f => f a
  | raise e, _ => raise e
  | lock k rest, f => lock k (rest.bind f)
  | stmt write rest, f => stmt write (fun s => (rest s).bind f)
  | peek rest, f => peek (fun s => (rest s).bind f)
  | fresh rest, f => fresh (fun n => (rest n).bind f)
  | publish m rest, f => publish m (rest.bind f)

instance : Monad (Tx S K E M) where
  pure := ret
  bind := Tx.bind

/-- `SELECT ... FOR UPDATE` on the row `k`, and the row lock of an `UPDATE`. -/
def acquire (k : K) : Tx S K E M Unit := lock k (ret ())

def query (f : S → α) : Tx S K E M α := stmt id (fun s => ret (f s))

def glance (f : S → α) : Tx S K E M α := peek (fun s => ret (f s))

def update (f : S → S) : Tx S K E M Unit := stmt f (fun _ => ret ())

def draw : Tx S K E M Nat := fresh ret

def send (m : M) : Tx S K E M Unit := publish m (ret ())

def ofExcept : Except E α → Tx S K E M α
  | .ok a => ret a
  | .error e => raise e

/-- The value, where there is one. -/
def require : Option α → E → Tx S K E M α
  | some a, _ => ret a
  | none, e => raise e

/-- `if c: raise e`. -/
def refuse (c : Prop) [Decidable c] (e : E) : Tx S K E M Unit :=
  if c then raise e else ret ()

/-- `if c: p`. -/
def when (c : Prop) [Decidable c] (p : Tx S K E M Unit) : Tx S K E M Unit :=
  if c then p else ret ()

/-- `for x in xs: p(x)`. -/
def forEach (xs : List α) (p : α → Tx S K E M Unit) : Tx S K E M Unit :=
  match xs with
  | [] => ret ()
  | x :: rest => (p x).bind (fun _ => forEach rest p)

end Tx

/-- Everything outside the processes: the committed rows, the next value of the
sequence, and the messages handed to the broker. -/
structure World (S M : Type) where
  db : S
  seq : Nat
  queue : List M

/-- Runs a transaction body alone. The returned rows are those the body saw
last; whether they are kept is decided by `Tx.atomic`. -/
def Tx.run {S K E M α : Type} : Tx S K E M α → World S M → Except E α × World S M
  | ret a, w => (.ok a, w)
  | raise e, w => (.error e, w)
  | lock _ rest, w => rest.run w
  | stmt write rest, w => (rest w.db).run { w with db := write w.db }
  | peek rest, w => (rest w.db).run w
  | fresh rest, w => (rest w.seq).run { w with seq := w.seq + 1 }
  | publish m rest, w => rest.run { w with queue := w.queue ++ [m] }

/-- `transaction.atomic`: an exception restores the rows, and only the rows. -/
def Tx.atomic {S K E M α : Type} (p : Tx S K E M α) (w : World S M) : Except E α × World S M :=
  match p.run w with
  | (.ok a, w') => (.ok a, w')
  | (.error e, w') => (.error e, { w' with db := w.db })

/-- What a process does: reads outside any transaction, and named transactions,
each with what follows its commit and what follows the exception it raised. -/
inductive Task (S E R L : Type) where
  | done (r : R)
  | fail (e : E)
  | look (rest : S → Task S E R L)
  | tx (l : L) (ok : R → Task S E R L) (err : E → Task S E R L)

/-- The same task, with other names for its transactions. -/
def Task.relabel {S E R L L' : Type} (name : L → L') : Task S E R L → Task S E R L'
  | done r => .done r
  | fail e => .fail e
  | look rest => .look (fun s => (rest s).relabel name)
  | tx l ok err => .tx (name l) (fun r => (ok r).relabel name) (fun e => (err e).relabel name)

/-- A program: the transaction behind every name, the task behind every call, and
what the outside does to the rows (time passing, for one). A statement or a
broker that fails raises `fault`. -/
structure System (S K E M R L C V : Type) where
  prog : L → Tx S K E M R
  body : C → Task S E R L
  outside : V → S → S
  fault : E

section Served
variable {S K E M R L C V : Type} (sys : System S K E M R L C V)

/-- Runs a task alone, from beginning to end. -/
def Task.run : Task S E R L → World S M → Except E R × World S M
  | done r, w => (.ok r, w)
  | fail e, w => (.error e, w)
  | look rest, w => (rest w.db).run w
  | tx l ok err, w =>
    match (sys.prog l).atomic w with
    | (.ok r, w') => (ok r).run w'
    | (.error e, w') => (err e).run w'

/-- The transactions that a task commits when it runs alone, each with the rows
before and after it. -/
def Task.committed : Task S E R L → World S M → List (L × S × S)
  | done _, _ | fail _, _ => []
  | look rest, w => (rest w.db).committed w
  | tx l ok err, w =>
    match (sys.prog l).atomic w with
    | (.ok r, w') => (l, w.db, w'.db) :: (ok r).committed w'
    | (.error e, w') => (err e).committed w'

/-- A request served from beginning to end, or the outside taking its turn. -/
inductive Request (C V : Type) where
  | call (c : C)
  | outside (v : V)

/-- One process serving requests one after another. -/
def System.serve (w : World S M) : Request C V → Option (World S M)
  | .call c => some ((sys.body c).run sys w).2
  | .outside v => some { w with db := sys.outside v w.db }

end Served

end Transactions
