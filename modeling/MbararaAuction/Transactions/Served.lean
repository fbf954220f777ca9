import MbararaAuction.Transactions.Exec
import MbararaAuction.Transactions.Runs

namespace Transactions

section Served
variable {S K E M R L C V : Type} (sys : System S K E M R L C V)

/-- The transactions that a request commits when it is served. -/
def System.commits (w : World S M) : Request C V → List (L × S × S)
  | .call c => (sys.body c).committed sys w
  | .outside _ => []

/-- The transactions that requests committed, in order, each with the rows before and
after it. -/
def System.log (before : List (World S M × Request C V)) : List (L × S × S) :=
  before.flatMap fun x => sys.commits x.1 x.2

variable {sys} {w v : World S M} {before : List (World S M × Request C V)}

/-- What every transaction and the outside preserve along the log, serving does. -/
theorem Run.log {I : List (L × S × S) → S → Prop} (hrun : Run sys.serve w before v)
    (hfirst : I [] w.db)
    (hprog : ∀ past l s r s', I past s → (sys.prog l).Exec Exact s (.ok r) s' →
      I (past ++ [(l, s, s')]) s')
    (houtside : ∀ past o s, I past s → I past (sys.outside o s)) : I (sys.log before) v.db := by
  induction hrun with
  | start => exact hfirst
  | @snoc before w' v request run taken ih =>
    have hlog : sys.log (before ++ [(w', request)]) = sys.log before ++ sys.commits w' request := by
      simp [System.log]
    rw [hlog]
    cases request with
    | call c =>
      cases taken
      exact Task.history hprog ih
    | outside o =>
      cases taken
      rw [System.commits, List.append_nil]
      exact houtside _ o _ ih

end Served

end Transactions
