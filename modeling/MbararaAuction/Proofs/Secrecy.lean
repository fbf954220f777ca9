import MbararaAuction.Model.Services
import MbararaAuction.Model.Views
import MbararaAuction.Transactions.Relational

namespace MbararaAuction
open Transactions Queries

@[simps] def Auction.withReserve (reserve : Option Money) (row : Auction) : Auction :=
  { row with reservePrice := reserve }

/-- The same tables with other reserve prices. -/
@[simps] def Database.withReserves (s : Database) (reserves : AuctionId → Option Money) :
    Database :=
  { s with dossier := fun a => (s.dossier a).onRow (.withReserve (reserves a)) }

/-- The two rows differ at most in the reserve price. -/
def SameRow (row row' : Auction) : Prop := ∃ reserve, row' = row.withReserve reserve

/-- The two states differ at most in reserve prices. -/
def SameRows (s t : Database) : Prop := ∃ reserves, t = s.withReserves reserves

/-- The two transactions do the same on states that differ at most in reserve prices. -/
abbrev Blind {α β : Type} (Q : α → β → Prop) (p : Prog α) (q : Prog β) : Prop :=
  p.Alike SameRows Q q

section Statements
variable {a : AuctionId} {pk : Nat} {row row' : Auction}

theorem blind_query {α : Type} {f : Database → α}
    (hf : ∀ s reserves, f (Database.withReserves s reserves) = f s) :
    Blind Eq (Tx.query f) (Tx.query f) := by
  apply alike_query
  rintro s _ ⟨reserves, rfl⟩
  exact (hf s reserves).symm

theorem blind_glance {α : Type} {f : Database → α}
    (hf : ∀ s reserves, f (Database.withReserves s reserves) = f s) :
    Blind Eq (Tx.glance f) (Tx.glance f) := by
  apply alike_glance
  rintro s _ ⟨reserves, rfl⟩
  exact (hf s reserves).symm

theorem blind_update {f : Database → Database}
    (hf : ∀ s reserves, f (Database.withReserves s reserves) = (f s).withReserves reserves) :
    Blind Eq (Tx.update f) (Tx.update f) := by
  apply alike_update
  rintro s _ ⟨reserves, rfl⟩
  exact ⟨reserves, hf s reserves⟩

/-- An update of a dossier that neither reads nor writes the reserve price. -/
theorem blind_amend {f : Dossier → Dossier}
    (hf : ∀ r d, f (Dossier.onRow (.withReserve r) d) = (f d).onRow (.withReserve r)) :
    Blind Eq (Tx.update fun s => s.amend a f) (Tx.update fun s => s.amend a f) := by
  apply blind_update
  intro s reserves
  simp only [Database.amend, Database.withReserves, Database.mk.injEq, true_and, and_true]
  funext b
  split
  · next hb =>
    subst hb
    exact hf ..
  · rfl

/-- What follows on an auction row, whatever its reserve price. -/
theorem andRow {α β : Type} {Q : α → β → Prop} {p q : Prog Auction} {f : Auction → Prog α}
    {g : Auction → Prog β} (h : Blind SameRow p q)
    (hrest : ∀ row reserve, Blind Q (f row) (g (Auction.withReserve reserve row))) :
    Blind Q (p >>= f) (q >>= g) := by
  apply h.andThen
  rintro row _ ⟨reserve, rfl⟩
  exact hrest row reserve

theorem alike_now : Blind Eq now now := blind_glance fun _ _ => rfl

theorem alike_record (actor : Option UserId) (action : AuditAction) (obj : ObjRef)
    (reason : String) : Blind Eq (record actor action obj reason) (record actor action obj reason) :=
  blind_update fun _ _ => rfl

theorem alike_lockedAuction (a : AuctionId) : Blind SameRow (lockedAuction a) (lockedAuction a) := by
  apply (alike_acquire _).andNext
  apply alike_query
  rintro s _ ⟨reserves, rfl⟩
  exact ⟨reserves a, rfl⟩

theorem alike_bids (a : AuctionId) : Blind Eq (Tx.query fun s => (s.dossier a).bids)
    (Tx.query fun s => (s.dossier a).bids) := blind_query fun _ _ => rfl

theorem alike_saveAuction {f : Auction → Auction}
    (hf : ∀ r row, f (Auction.withReserve r row) = (f row).withReserve r) :
    Blind Eq (saveAuction a f) (saveAuction a f) :=
  (alike_acquire _).andNext (blind_amend fun r d => by simp only [Dossier.onRow, hf])

theorem alike_createStatusLog (log : StatusLog) :
    Blind Eq (createStatusLog a log) (createStatusLog a log) :=
  blind_amend fun _ _ => rfl

theorem alike_saveBid (f : Bid → Bid) : Blind Eq (saveBid a pk f) (saveBid a pk f) :=
  (alike_acquire _).andNext (blind_amend fun _ _ => rfl)

theorem alike_nextPk {pks : Dossier → List Nat}
    (hpks : ∀ r d, pks (Dossier.onRow (.withReserve r) d) = pks d) :
    Blind Eq (nextPk a pks) (nextPk a pks) := by
  apply alike_draw.andSame
  intro pk
  apply (blind_query fun s reserves => hpks (reserves a) (s.dossier a)).andSame
  intro used
  exact (alike_refuse ..).andNext (alike_pure rfl)

theorem alike_createBid (bidder : UserId) (amount : Money) (sequenceNo : Nat) :
    Blind Eq (createBid a bidder amount sequenceNo) (createBid a bidder amount sequenceNo) := by
  apply (alike_nextPk fun _ _ => rfl).andSame
  intro pk
  apply alike_now.andSame
  intro t
  apply (blind_query fun _ _ => rfl).andSame
  intro taken
  apply (alike_refuse ..).andNext
  apply (alike_refuse ..).andNext
  exact (blind_amend fun _ _ => rfl).andNext (alike_pure rfl)

end Statements

section Notifications
variable {a : AuctionId} {row row' : Auction}

theorem alike_createNotification (user : UserId) (n : Notice) :
    Blind Eq (createNotification user n) (createNotification user n) := by
  apply alike_draw.andSame
  intro pk
  exact (blind_update fun _ _ => rfl).andNext (alike_pure rfl)

theorem alike_notify (n : Notice) : Blind Eq (notify n) (notify n) := by
  unfold notify
  cases n.recipient with
  | none => exact alike_pure rfl
  | some user =>
    apply (alike_createNotification user n).andSame
    intro pk
    exact alike_send pk

theorem alike_notifyOutbid (h : SameRow row row') (bid : Bid) (amount : String) :
    Blind Eq (notifyOutbid a row bid amount) (notifyOutbid a row' bid amount) := by
  obtain ⟨reserve, rfl⟩ := h
  apply (alike_bids a).andSame
  intro bids
  split
  · exact alike_pure rfl
  · split
    · exact alike_pure rfl
    · exact alike_notify _

theorem alike_notifyTransition (h : SameRow row row') (toStatus : Status) (reason : String) :
    Blind Eq (notifyTransition a row toStatus reason)
      (notifyTransition a row' toStatus reason) := by
  obtain ⟨reserve, rfl⟩ := h
  cases toStatus with
  | approved | rejected | live =>
    simp only [notifyTransition, notifyListingApproved, notifyListingRejected, notifyAuctionLive,
      Auction.withReserve_seller, Auction.withReserve_title]
    exact alike_notify _
  | _ => exact alike_pure rfl

theorem alike_recordTransition (toStatus : Status) (actor : Option UserId) (reason : String) :
    Blind Eq (recordTransition a toStatus actor reason)
      (recordTransition a toStatus actor reason) := by
  unfold recordTransition
  split
  · exact alike_record ..
  · exact alike_pure rfl

theorem alike_notifyAuctionUpdate (h : SameRow row row') (event : NotificationEvent)
    (title message : String) : Blind Eq (notifyAuctionUpdate a row event title message)
      (notifyAuctionUpdate a row' event title message) := by
  obtain ⟨reserve, rfl⟩ := h
  apply (alike_bids a).andSame
  intro bids
  exact alike_forEach _ fun _ => alike_notify _

end Notifications

section Services
variable {a : AuctionId}

theorem alike_transition (toStatus : Status) (actor : Option UserId) (reason : String) :
    Blind SameRow (transition a toStatus actor reason) (transition a toStatus actor reason) := by
  apply andRow (alike_lockedAuction a)
  intro row reserve
  apply (alike_refuse ..).andNext
  apply (alike_refuse ..).andNext
  apply (alike_saveAuction fun _ _ => rfl).andNext
  apply (alike_createStatusLog _).andNext
  apply (alike_recordTransition ..).andNext
  have hmoved : SameRow (row.withStatus toStatus) ((row.withReserve reserve).withStatus toStatus) :=
    ⟨reserve, rfl⟩
  exact (alike_notifyTransition hmoved ..).andNext (alike_pure hmoved)

theorem alike_placeBid (bidderUser : UserId) (amount : Number) :
    Blind Eq (placeBid a bidderUser amount) (placeBid a bidderUser amount) := by
  apply (alike_ofExcept _).andSame
  intro amount
  apply andRow (alike_lockedAuction a)
  intro row reserve
  apply alike_now.andSame
  intro t
  apply (alike_refuse ..).andNext
  apply (blind_glance fun _ _ => rfl).andSame
  intro profile
  apply (blind_glance fun _ _ => rfl).andSame
  intro isActive
  apply (alike_refuse ..).andNext
  apply (alike_refuse ..).andNext
  apply (alike_refuse ..).andNext
  apply (alike_refuse ..).andNext
  apply (alike_bids a).andSame
  intro bids
  apply (alike_createBid ..).andSame
  intro bid
  apply (alike_when _ (alike_record ..)).andNext
  apply (alike_saveAuction fun _ _ => rfl).andNext
  apply (alike_record ..).andNext
  exact (alike_notifyOutbid ⟨reserve, rfl⟩ ..).andNext (alike_pure rfl)

theorem alike_invalidateBid (pk : Nat) (actor : UserId) (reason : String) :
    Blind Eq (invalidateBid a pk actor reason) (invalidateBid a pk actor reason) := by
  apply (alike_lockedAuction a).andNext
  apply alike_now.andSame
  intro t
  apply (alike_saveBid _).andNext
  apply (alike_bids a).andSame
  intro bids
  exact (alike_saveAuction fun _ _ => rfl).andNext (alike_record ..)

theorem alike_reschedule (actor : UserId) (reason : String) (startTime endTime : Option Time) :
    Blind SameRow (reschedule a actor reason startTime endTime)
      (reschedule a actor reason startTime endTime) := by
  apply (alike_ofExcept _).andSame
  intro reason
  apply andRow (alike_lockedAuction a)
  intro row reserve
  apply alike_now.andSame
  intro t
  apply (alike_refuse ..).andNext
  apply (alike_refuse ..).andNext
  apply (alike_refuse ..).andNext
  apply (alike_refuse ..).andNext
  apply (alike_refuse ..).andNext
  apply (alike_refuse ..).andNext
  apply (alike_refuse ..).andNext
  apply (alike_saveAuction fun _ _ => rfl).andNext
  apply (alike_record ..).andNext
  exact (alike_notifyAuctionUpdate ⟨reserve, rfl⟩ ..).andNext (alike_pure ⟨reserve, rfl⟩)

theorem alike_pause (actor : UserId) (reason : String) :
    Blind SameRow (pause a actor reason) (pause a actor reason) := by
  apply (alike_ofExcept _).andSame
  intro reason
  apply (alike_lockedAuction a).andNext
  apply andRow (alike_transition ..)
  intro paused reserve
  apply (alike_record ..).andNext
  exact (alike_notifyAuctionUpdate ⟨reserve, rfl⟩ ..).andNext (alike_pure ⟨reserve, rfl⟩)

theorem alike_resume (actor : UserId) : Blind SameRow (resume a actor) (resume a actor) := by
  apply andRow (alike_lockedAuction a)
  intro row reserve
  apply (alike_refuse ..).andNext
  apply alike_now.andSame
  intro t
  apply (alike_refuse ..).andNext
  apply andRow (alike_transition ..)
  intro live reserve'
  apply (alike_record ..).andNext
  exact (alike_notifyAuctionUpdate ⟨reserve', rfl⟩ ..).andNext (alike_pure ⟨reserve', rfl⟩)

end Services

/-- What visitors and staff do with auctions before they close, and what happens meanwhile. -/
inductive Operation where
  | placeBid (a : AuctionId) (bidderUser : UserId) (amount : Number)
  | invalidateBid (a : AuctionId) (pk : Nat) (actor : UserId) (reason : String)
  | reschedule (a : AuctionId) (actor : UserId) (reason : String) (startTime endTime : Option Time)
  | pause (a : AuctionId) (actor : UserId) (reason : String)
  | resume (a : AuctionId) (actor : UserId)
  | detail (viewer : Viewer) (a : AuctionId)
  | outside (v : Outside)

/-- What comes back. -/
inductive Response where
  | returned (result : Except PyError Value)
  | page (result : Except PageError Page)
  | nothing

/-- A result as those see it who do not ask an auction object for its reserve price. -/
def Value.withoutReserve : Value → Value
  | auction row => auction (row.withReserve Option.none)
  | v => v

def Response.withoutReserve : Response → Response
  | returned result => returned (result.map Value.withoutReserve)
  | response => response

/-- A call from its beginning to its end. -/
def performCall (call : Call) (w : World Database Nat) : Response × World Database Nat :=
  (.returned ((engine.body call).run engine w).1, ((engine.body call).run engine w).2)

def Operation.perform (w : World Database Nat) : Operation → Response × World Database Nat
  | placeBid a bidderUser amount => performCall (.placeBid a bidderUser amount) w
  | invalidateBid a pk actor reason => performCall (.invalidateBid a pk actor reason) w
  | reschedule a actor reason startTime endTime =>
    performCall (.reschedule a actor reason startTime endTime) w
  | pause a actor reason => performCall (.pause a actor reason) w
  | resume a actor => performCall (.resume a actor) w
  | detail viewer a => (.page (MbararaAuction.detail w.db viewer a), w)
  | outside v => (.nothing, { w with db := v.apply w.db })

/-- The responses to a sequence of operations, and where it leads. -/
def performAll : List Operation → World Database Nat → List Response × World Database Nat
  | [], w => ([], w)
  | op :: rest, w =>
    let (response, w') := op.perform w
    let (responses, last) := performAll rest w'
    (response :: responses, last)

/-- What the public and those who are notified can see of a state. -/
structure LooksAlike (w v : World Database Nat) : Prop where
  pages : ∀ viewer a, detail w.db viewer a = detail v.db viewer a
  bids : ∀ a, (w.db.dossier a).bids = (v.db.dossier a).bids
  notifications : w.db.notifications = v.db.notifications
  queue : w.queue = v.queue

section Runs
variable {s t : Database} {w v : World Database Nat}

/-- The results agree up to reserve prices. -/
def SameValue (x y : Value) : Prop := x.withoutReserve = y.withoutReserve

theorem SameRow.value {row row' : Auction} (h : SameRow row row') :
    SameValue (.auction row) (.auction row') := by
  obtain ⟨reserve, rfl⟩ := h
  rfl

theorem alone_alike {l : ServiceTx} (h : Blind SameValue l.prog l.prog) :
    l.alone.Alike engine SameRows SameValue l.alone :=
  .tx h (fun _ _ hr => .done hr) .fail

theorem invalidateBidTask_alike (a : AuctionId) (pk : Nat) (actor : UserId) (reason : String) :
    (invalidateBidTask a pk actor reason).Alike engine SameRows SameValue
      (invalidateBidTask a pk actor reason) := by
  refine .look ?_
  rintro s _ ⟨reserves, rfl⟩
  simp only [Database.withReserves_dossier, Dossier.onRow_bids]
  split
  · exact .fail _
  · split
    · exact .fail _
    · exact alone_alike ((alike_invalidateBid ..).map fun _ _ _ => rfl)

theorem detail_alike (h : SameRows s t) (viewer : Viewer) (a : AuctionId) :
    detail s viewer a = detail t viewer a := by
  obtain ⟨reserves, rfl⟩ := h
  rfl

theorem outside_alike (h : SameRows s t) (x : Outside) : SameRows (x.apply s) (x.apply t) := by
  obtain ⟨reserves, rfl⟩ := h
  refine ⟨reserves, ?_⟩
  cases x <;> rfl

theorem performCall_alike (call : Call) (h : w.Alike SameRows v)
    (hcall : (engine.body call).Alike engine SameRows SameValue (engine.body call)) :
    (performCall call w).1.withoutReserve = (performCall call v).1.withoutReserve ∧
      (performCall call w).2.Alike SameRows (performCall call v).2 := by
  obtain ⟨hout, hafter⟩ := hcall.run h
  refine ⟨?_, hafter⟩
  unfold performCall
  generalize ((engine.body call).run engine w).1 = x at hout
  generalize ((engine.body call).run engine v).1 = y at hout
  cases hout with
  | ok hr => exact congrArg (fun r => Response.returned (.ok r)) hr
  | error e => rfl

/-- One operation: the responses are the same, and so are the states but for reserve prices. -/
theorem perform_alike (op : Operation) (h : w.Alike SameRows v) :
    (op.perform w).1.withoutReserve = (op.perform v).1.withoutReserve ∧
      (op.perform w).2.Alike SameRows (op.perform v).2 := by
  cases op with
  | placeBid a bidderUser amount =>
    apply performCall_alike (.placeBid a bidderUser amount) h
    exact alone_alike ((alike_placeBid ..).map fun _ _ hbid =>
      congrArg (fun bid => Value.withoutReserve (.bid bid)) hbid)
  | invalidateBid a pk actor reason =>
    exact performCall_alike (.invalidateBid a pk actor reason) h (invalidateBidTask_alike ..)
  | reschedule a actor reason startTime endTime =>
    apply performCall_alike (.reschedule a actor reason startTime endTime) h
    exact alone_alike ((alike_reschedule ..).map fun _ _ hr => hr.value)
  | pause a actor reason =>
    apply performCall_alike (.pause a actor reason) h
    exact alone_alike ((alike_pause ..).map fun _ _ hr => hr.value)
  | resume a actor =>
    apply performCall_alike (.resume a actor) h
    exact alone_alike ((alike_resume ..).map fun _ _ hr => hr.value)
  | detail viewer a =>
    exact ⟨congrArg (fun r => Response.withoutReserve (.page r)) (detail_alike h.rows viewer a), h⟩
  | outside x => exact ⟨rfl, outside_alike h.rows x, h.seq, h.queue⟩

theorem performAll_alike (ops : List Operation) (h : w.Alike SameRows v) :
    (performAll ops w).1.map Response.withoutReserve =
        (performAll ops v).1.map Response.withoutReserve ∧
      (performAll ops w).2.Alike SameRows (performAll ops v).2 := by
  induction ops generalizing w v with
  | nil => exact ⟨rfl, h⟩
  | cons op rest ih =>
    obtain ⟨hresponse, hnext⟩ := perform_alike op h
    obtain ⟨hresponses, hlast⟩ := ih hnext
    exact ⟨congrArg₂ List.cons hresponse hresponses, hlast⟩

theorem looksAlike (h : w.Alike SameRows v) : LooksAlike w v := by
  obtain ⟨⟨reserves, hrows⟩, _, hqueue⟩ := h
  refine ⟨fun viewer a => detail_alike ⟨reserves, hrows⟩ viewer a, ?_, ?_, hqueue⟩
  · rw [hrows]
    exact fun _ => rfl
  · rw [hrows]
    rfl

end Runs

/-- The state `w`, but for the reserve price of the auction `a`. -/
def otherReserve (a : AuctionId) (reserve : Option Money) (w : World Database Nat) :
    World Database Nat :=
  { w with db := w.db.amend a (.onRow (.withReserve reserve)) }

theorem otherReserve_alike (a : AuctionId) (reserve : Option Money) (w : World Database Nat) :
    w.Alike SameRows (otherReserve a reserve w) := by
  refine ⟨⟨fun b => if b = a then reserve else (w.db.dossier b).row.reservePrice, ?_⟩, rfl, rfl⟩
  simp only [otherReserve, Database.amend, Database.withReserves, Database.mk.injEq, true_and,
    and_true]
  funext b
  split
  · next hb =>
    subst hb
    rfl
  · rfl

/-- Two states that differ in the reserve price of one auction, and any sequence of
operations: the responses are the same, and what can be seen after it is the same. -/
theorem reserve_secret (w : World Database Nat) (a : AuctionId) (reserve : Option Money)
    (ops : List Operation) :
    (performAll ops w).1.map Response.withoutReserve =
        (performAll ops (otherReserve a reserve w)).1.map Response.withoutReserve ∧
      LooksAlike (performAll ops w).2 (performAll ops (otherReserve a reserve w)).2 := by
  obtain ⟨hresponses, hlast⟩ := performAll_alike ops (otherReserve_alike a reserve w)
  exact ⟨hresponses, looksAlike hlast⟩

end MbararaAuction
