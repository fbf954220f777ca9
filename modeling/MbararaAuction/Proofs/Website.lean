import MbararaAuction.Model.Website
import MbararaAuction.Proofs.Histories
import MbararaAuction.Transactions.Layers

namespace MbararaAuction
open Transactions Locking

seal Tx.Exec

section Website
variable {parseDatetime : String → Option Time} {db : Database}

/-- The layer of the views adds no rows of its own: what the services keep along their runs
is carried over through this. -/
theorem website_refines_services (m : (website parseDatetime).Moment db) :
    ∃ n : engine.Moment db, n.now.world = m.now.world ∧ n.now.locks = m.now.locks ∧
      ∀ m' : (website parseDatetime).Moment db, m'.Leads m → ∃ n' : engine.Moment db,
        n'.Leads n ∧ n'.now.world = m'.now.world ∧ n'.now.locks = m'.now.locks := by
  obtain ⟨n, hn, hearlier⟩ := layered_moment m
  refine ⟨n, hn.world.symm, hn.locks.symm, fun m' hm => ?_⟩
  obtain ⟨n', hlater, hn'⟩ := hearlier m' hm
  exact ⟨n', hlater, hn'.world.symm, hn'.locks.symm⟩

theorem website_disciplined : Disciplined (website parseDatetime) rowLocks :=
  disciplined.layer

/-- A commit of the website is a commit of a service. -/
theorem website_commit {before : List (Config Database RowKey PyError Nat (Value ⊕ Answer) ServiceTx
      WebCall × Event WebCall Outside)}
    {c c' : Config Database RowKey PyError Nat (Value ⊕ Answer) ServiceTx WebCall}
    {ev : Event WebCall Outside} {d : WebCall} {l : ServiceTx}
    (hrun : Run (website parseDatetime).step (Config.initial db) before c)
    (hs : (website parseDatetime).step c ev = some c') (hc : c.commits ev = some (d, l)) :
    ∃ v, l.prog.Exec Anything c.world.db (.ok v) c'.world.db := by
  obtain ⟨r, hexec⟩ := commit_exec (hrun.tracked website_disciplined) hs hc
  obtain ⟨v, s, hl, hrest⟩ := (exec_bind_ok l.prog _ _).mp hexec
  rw [((exec_pure _ _).mp hrest).2]
  exact ⟨v, hl⟩

/-- What the services keep along every run, the website keeps. -/
theorem website_leads {R : Database → Database → Prop} {m' m : (website parseDatetime).Moment db}
    (hm : m'.Leads m) (h : ∀ n' n : engine.Moment db, n'.Leads n → R n'.rows n.rows) :
    R m'.rows m.rows := by
  obtain ⟨n, hn, _, hearlier⟩ := website_refines_services m
  obtain ⟨n', hlater, hn', _⟩ := hearlier m' hm
  have hrows : n.rows = m.rows := congrArg World.db hn
  have hrows' : n'.rows = m'.rows := congrArg World.db hn'
  rw [← hrows, ← hrows']
  exact h n' n hlater

/-- What a listing was made with stays. -/
theorem website_listing {m' m : (website parseDatetime).Moment db} (hm : m'.Leads m)
    (a : AuctionId) : (m.rows.dossier a).row.listing = (m'.rows.dossier a).row.listing := by
  refine website_leads (R := fun s t => (t.dossier a).row.listing = (s.dossier a).row.listing) hm ?_
  intro n' n hlater
  refine leads_dossier (I := fun _ => True) (R := fun d e => e.row.listing = d.row.listing) hlater
    (fun _ => rfl) (fun h h' => h'.trans h) (fun _ => trivial) ?_
  intro act d d' _ hmove
  exact hmove.listing

end Website

section Requests
variable {X : Type} {rows : X → Database} {later : X → X → Prop} {Q : Call → X → Prop} {x : X}
variable {session : Option UserId} {u : UserId}

/-- Somebody is logged in, and the account is active. -/
def Database.Knows (s : Database) (session : Option UserId) (u : UserId) : Prop :=
  session = some u ∧ u ∈ s.userPks ∧ (s.users u).isActive = true

theorem requestUser_some {s : Database} {user : User}
    (h : requestUser s session = some (u, user)) : s.Knows session u ∧ user = s.users u := by
  obtain ⟨v, hv, hfound⟩ := Option.bind_eq_some_iff.mp h
  split at hfound
  · next hknown =>
    cases hfound
    exact ⟨⟨hv, hknown⟩, rfl⟩
  · cases hfound

theorem makes_loginRequired {view : UserId → User → PostView}
    (h : ∀ u y, later x y → (rows y).Knows session u →
      (view u ((rows y).users u)).Makes rows later Q y) :
    (loginRequired session view).Makes rows later Q x := by
  intro y hy
  beta_reduce
  split
  · trivial
  · next u user hfound =>
    obtain ⟨hknown, rfl⟩ := requestUser_some hfound
    exact h u y hy hknown

theorem makes_testRequired {test : User → Bool} {view : UserId → User → PostView}
    (h : ∀ u y, later x y → (rows y).Knows session u → test ((rows y).users u) = true →
      (view u ((rows y).users u)).Makes rows later Q y) :
    (testRequired test session view).Makes rows later Q x := by
  intro y hy
  beta_reduce
  split
  · trivial
  · next u user hfound =>
    obtain ⟨hknown, rfl⟩ := requestUser_some hfound
    split
    · next htest => exact h u y hy hknown htest
    · trivial

theorem makes_staffOrOfficerRequired {view : UserId → PostView}
    (h : ∀ u y, later x y → (rows y).Knows session u →
      ((rows y).users u).isOfficerOrAdmin = true → (view u).Makes rows later Q y) :
    (staffOrOfficerRequired session view).Makes rows later Q x :=
  makes_testRequired h

theorem makes_getAuction {a : AuctionId} {next : Auction → PostView}
    (h : ∀ y, later x y → (next ((rows y).dossier a).row).Makes rows later Q y) :
    (getAuction a next).Makes rows later Q x := by
  intro y hy
  beta_reduce
  split
  · exact h y hy
  · trivial

theorem makes_getPayment {pk : Nat} {next : AuctionId → PostView}
    (h : ∀ a y, later x y → (∃ p ∈ ((rows y).dossier a).payments, p.pk = pk) →
      (next a).Makes rows later Q y) : (getPayment pk next).Makes rows later Q x := by
  intro y hy
  beta_reduce
  split
  · trivial
  · next a p hfound =>
    obtain ⟨b, _, hb⟩ := List.mem_flatMap.mp (List.mem_of_find?_eq_some hfound)
    obtain ⟨payment, hpayment, hsame⟩ := List.mem_map.mp hb
    cases hsame
    exact h a y hy ⟨p, hpayment, by simpa using List.find?_some hfound⟩

theorem makes_getDispute {pk : Nat} {next : AuctionId → PostView}
    (h : ∀ a y, later x y → (∃ d ∈ ((rows y).dossier a).disputes, d.pk = pk) →
      (next a).Makes rows later Q y) : (getDispute pk next).Makes rows later Q x := by
  intro y hy
  beta_reduce
  split
  · trivial
  · next a d hfound =>
    obtain ⟨b, _, hb⟩ := List.mem_flatMap.mp (List.mem_of_find?_eq_some hfound)
    obtain ⟨dispute, hdispute, hsame⟩ := List.mem_map.mp hb
    cases hsame
    exact h a y hy ⟨d, hdispute, by simpa using List.find?_some hfound⟩

/-- A view that makes one call, and none after it. -/
theorem makes_tryCall {c : Call} {caught : PyError → Option String} {ok : Value → PostView}
    {handle : String → PostView} (hc : Q c x) (hok : ∀ v y, (ok v).Makes rows later Q y)
    (hhandle : ∀ text y, (handle text).Makes rows later Q y) :
    (tryCall c caught ok handle).Makes rows later Q x := by
  refine ⟨hc, fun out y _ => ?_⟩
  cases out with
  | ok v => exact hok v y
  | error e =>
    dsimp only
    split
    · exact hhandle _ y
    · trivial

end Requests

end MbararaAuction
