import MbararaAuction.Machine.BidBook
import MbararaAuction.Proofs.Exceptions
import MbararaAuction.Proofs.Histories
import MbararaAuction.Proofs.Tasks
import MbararaAuction.Transactions.Worker

namespace MbararaAuction
open Transactions Locking

seal Tx.Exec

section Announces
variable {own : Nat → Prop} {call : Call}

/-- The transaction that hands the message about a committed notification to the broker. -/
def Sends (l : ServiceTx) (pk : Nat) : Prop := l = .deliver pk

/-- The task stores what it announces, whatever it could rely on before, and announces what
it stores. -/
structure Tells (t : ServiceTask) : Prop where
  announces : ∀ own, t.Announces engine Stored own
  clears : t.Clears engine Stored Sends

theorem tells_done (v : Value) : Tells (.done v) := ⟨fun _ => trivial, trivial⟩

theorem tells_fail (e : PyError) : Tells (.fail e) := ⟨fun _ => trivial, trivial⟩

theorem tells_look {rest : Database → ServiceTask} (h : ∀ s, Tells (rest s)) :
    Tells (.look rest) :=
  ⟨fun own s => (h s).announces own, fun s => (h s).clears⟩

/-- A transaction that notifies on its own, and then the rest. -/
theorem tells_tx {l : ServiceTx} {ok : Value → ServiceTask} {err : PyError → ServiceTask}
    (hc : ∀ user n, l ≠ .createNotification user n) (hl : ∀ pk, l ≠ .deliver pk)
    (hok : ∀ v, Tells (ok v)) (herr : ∀ e, Tells (err e)) : Tells (.tx l ok err) := by
  have hlawful := Locking.lawful_prog (H := []) l hc hl
  refine ⟨fun own => ⟨hlawful.announces own, fun v => (hok v).announces _,
    fun e => (herr e).announces own⟩, ?_, fun v => (hok v).clears, fun e => (herr e).clears⟩
  refine (hlawful.balances (Sends l)).mono fun out left hleft => ?_
  have hnone : ∀ pk, ¬ left pk := fun pk h => hl pk (hleft pk h)
  cases out with
  | ok v => exact fun pk h => absurd h (hnone pk)
  | error e => exact fun pk h => absurd h (hnone pk)

/-- What never only stores or only publishes a notification. -/
theorem issues_tells {t : ServiceTask} {s : Database}
    (h : t.Issues id (fun _ _ => True)
      (fun l _ => (∀ user n, l ≠ .createNotification user n) ∧ ∀ pk, l ≠ .deliver pk) s) :
    Tells t := by
  induction t generalizing s with
  | done r => exact tells_done r
  | fail e => exact tells_fail e
  | look rest ih => exact tells_look fun u => ih u (h u trivial)
  | tx l ok err ihok iherr =>
    obtain ⟨hl, hok, herr⟩ := h s trivial
    exact tells_tx hl.1 hl.2 (fun r => ihok r (hok r)) fun e => iherr e (herr e)

/-- The row, and then its message. -/
theorem notifyTask_tells {notice : Notice} {next : ServiceTask} (hnext : Tells next) :
    Tells (notifyTask notice next) := by
  unfold notifyTask
  split
  · exact hnext
  rename_i user _
  constructor
  · refine fun own => ⟨fun _ _ => trivial, fun r => ?_, fun _ => trivial⟩
    cases r with
    | key pk =>
      refine ⟨⟨.inr fun s s' hx => ?_, trivial⟩, fun _ => hnext.announces _, fun _ => trivial⟩
      obtain ⟨_, hkey, hcreate⟩ := exec_then_pure hx
      cases hkey
      obtain ⟨_, hpk, rfl⟩ := exec_createNotification.mp hcreate
      cases hpk
      simp [Stored]
    | _ => exact hnext.announces _
  · refine ⟨fun pk s m hleft => ?_, fun r => ?_, fun _ => trivial⟩
    · rcases hleft with hsends | ⟨t, hnew, hold⟩
      · cases hsends
      · rcases stored_insert hnew with hbefore | hpk
        · exact absurd hbefore hold
        · exact congrArg ServiceTx.deliver hpk.symm
    · cases r with
      | key pk =>
        refine ⟨?_, fun _ => hnext.clears, fun _ => trivial⟩
        rintro m ⟨hsends, hne⟩
        cases hsends
        exact absurd rfl hne
      | _ => exact hnext.clears

theorem announceTask_tells {p : ProfileRef} {userSelected : Bool} {action : AuditAction}
    {actor : UserId} {reason : String} {notice : Notice} {result : Value} :
    Tells (announceTask p userSelected action actor reason notice result) := by
  have hnotify : Tells (notifyTask notice (.done result)) := notifyTask_tells (tells_done _)
  refine tells_tx (by simp) (by simp) (fun _ => ?_) tells_fail
  cases userSelected with
  | true => exact hnotify
  | false => exact tells_look fun _ => hnotify

theorem markFailed_tells {payment : LoadedPayment} {actor : UserId} {reason : String} :
    Tells (markFailedTask payment actor reason) := by
  have hfinish : ∀ auction, Tells (notifyTask
      (paymentFailedNotice payment.auction auction payment.row.pk reason)
      (.done (.payment (payment.row.failedWith actor reason)))) :=
    fun _ => notifyTask_tells (tells_done _)
  unfold markFailedTask
  split
  · exact tells_fail _
  split
  · exact tells_fail _
  refine tells_tx (by simp) (by simp) (fun _ => ?_) tells_fail
  refine tells_tx (by simp) (by simp) (fun _ => ?_) tells_fail
  cases payment.cachedAuction with
  | some row => exact hfinish row
  | none => exact tells_look fun _ => hfinish _

theorem Loads.tells {α : Type} {load : (α → ServiceTask) → ServiceTask}
    {fits : α → Database → Prop} (h : Loads load fits) {f : α → ServiceTask}
    (hf : ∀ x, Tells (f x)) : Tells (load f) := by
  obtain ⟨rest, hload, hrest⟩ := h.reads f
  rw [hload]
  refine tells_look fun s => ?_
  rcases hrest s with hnone | ⟨x, _, hsome⟩
  · rw [hnone]
    exact tells_fail _
  · rw [hsome]
    exact hf x

/-- A save, and then what announces it. -/
theorem saved_tells {l : ServiceTx} (hc : ∀ user n, l ≠ .createNotification user n)
    (hl : ∀ pk, l ≠ .deliver pk) {p : ProfileRef} {userSelected : Bool} {action : AuditAction}
    {actor : UserId} {reason : String} {notice : Notice} : Tells (.tx l (fun result =>
      announceTask p userSelected action actor reason notice result) .fail) :=
  tells_tx hc hl (fun _ => announceTask_tells) tells_fail

theorem body_tells (call : Call) : Tells (engine.body call) := by
  cases call with
  | markFailed a pk selectRelated actor reason =>
    exact (withPayment_loads a pk selectRelated).tells
      (f := fun payment => markFailedTask payment actor reason) fun _ => markFailed_tells
  | verifyProfile p userSelected actor reason =>
    exact (withProfile_loads p).tells fun _ => saved_tells (by simp) (by simp)
  | rejectProfile p userSelected actor reason =>
    refine (withProfile_loads p).tells fun _ => ?_
    unfold rejectProfileTask
    split
    · exact tells_fail _
    · exact saved_tells (by simp) (by simp)
  | suspendBidder u userSelected actor reason =>
    refine (withBidder_loads u).tells fun _ => ?_
    unfold suspendBidderTask
    split
    · exact tells_fail _
    · exact saved_tells (by simp) (by simp)
  | reactivateBidder u userSelected actor reason =>
    exact (withBidder_loads u).tells fun _ => saved_tells (by simp) (by simp)
  | _ =>
    refine issues_tells (s := sampleDatabase) ((body_may (fun _ => trivial)
      (fun _ _ _ _ _ => trivial) _ sampleDatabase).mono fun l _ hl => ⟨?_, ?_⟩)
    · rintro user n rfl
      simp [Call.May] at hl
    · rintro pk rfl
      simp [Call.May] at hl

theorem announcing : Announcing engine Stored Write ServiceTx.Late where
  keeps := by
    intro write hw pk s h
    cases hw with
    | notification row =>
      simp only [Stored, List.map_append]
      exact List.mem_append_left _ h
    | _ => exact h
  outside v pk s h := by cases v <;> exact h
  writes := prog_writes
  firm := prog_firm
  never := prog_never_late
  body call own := (body_tells call).announces own

end Announces

/-- The services and the worker that delivers their notifications. -/
abbrev Mail := Desk Database RowKey PyError Nat Value ServiceTx Call Delivery

abbrev MailEvent := DeskEvent Call Outside

abbrev MailRun (db : Database) : List (Mail × MailEvent) → Mail → Prop :=
  Run (Desk.step engine deliverNotification) (Desk.opened db)

/-- The worker found every notification that is committed; every message that was published
is about one that is committed or still can be; and every notification committed since the
beginning has been published, or its process is about to publish it. -/
structure Delivered (db : Database) (o : Mail) : Prop where
  found : ∀ y ∈ o.taken, ∀ pk, o.site.world.queue[y.1]? = some pk → Stored pk o.site.db →
    y.2 ≠ .noLongerExists
  backed : o.site.Backed Stored
  published : ∀ pk, Stored pk o.site.db → Stored pk db ∨ pk ∈ o.site.world.queue ∨
    ∃ i, (o.site.sessions i).Owes Sends pk

/-- The worker waits for the commit of the transaction that published the message, and neither
a fault nor a crash strikes a process between its message and its commit, or between its
commit and its message. -/
def Timely (o : Mail) : MailEvent → Prop
  | .site ev => o.site.Spares Stored Sends ev
  | .take n => ∀ pk, o.site.world.queue[n]? = some pk →
    ∀ i, ¬ (o.site.sessions i).Holds Stored pk

theorem deliver_finds {pk : Nat} {s : Database} (h : Stored pk s) :
    deliverNotification pk s ≠ .noLongerExists := by
  obtain ⟨row, hrow, rfl⟩ := List.mem_map.mp h
  unfold deliverNotification
  cases hfind : s.notifications.find? (fun n => n.pk = row.pk) with
  | none =>
    have hnone := List.find?_eq_none.mp hfind row hrow
    simp at hnone
  | some n =>
    dsimp only
    split
    · exact fun h => by cases h
    · exact fun h => by cases h

/-- What the processes and the worker keep up. -/
structure Mindful (db : Database) (o : Mail) : Prop where
  sessions : ∀ j, (o.site.sessions j).Announces engine Stored Write ServiceTx.Late o.site.db
  vouched : o.site.Vouched Stored ServiceTx.Late
  posted : Posted engine Stored Sends (Stored · db) o.site
  found : ∀ y ∈ o.taken, y.2 ≠ .noLongerExists

theorem Mindful.take {db : Database} {o o' : Mail} {n : Nat} (h : Mindful db o)
    (hev : Timely o (.take n)) (taken : Desk.step engine deliverNotification o (.take n) = some o') :
    Mindful db o' := by
  simp only [Desk.step] at taken
  split at taken
  · cases taken
  · rename_i pk hpk
    split at taken
    · cases taken
    · cases taken
      refine ⟨h.sessions, h.vouched, h.posted, fun y hy => ?_⟩
      rcases List.mem_append.mp hy with hy | hy
      · exact h.found y hy
      · rw [List.mem_singleton.mp hy]
        rcases h.vouched.backed pk (List.mem_of_getElem? hpk) with hstored | ⟨i, hi⟩
        · exact deliver_finds hstored
        · exact absurd hi (hev pk hpk i)

section Schedules

/-- The sample listing is submitted and then approved, up to the last `n` moves. -/
def approving (n : Nat) : List MailEvent :=
  let events : List SiteEvent := [.call 0 (.submitForReview 0 1)] ++ moves 0 8 ++
    [.call 1 (.approve 0 0 "")] ++ moves 1 n
  events.map .site

/-- Whether the worker has nothing to wait for, as far as the first two processes are
concerned, and nothing fails. -/
def prompt (o : Mail) : MailEvent → Bool
  | .site ev => ev.smooth && ev.process.all (· < 2)
  | .take _ => !(o.site.sessions 0).open_ && !(o.site.sessions 1).open_

end Schedules

end MbararaAuction
