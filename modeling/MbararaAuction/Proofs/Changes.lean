import MbararaAuction.Machine.Moves

namespace MbararaAuction
open Transactions Queries

/-- Nothing has changed about the auctions. -/
structure Aside (s t : Database) : Prop where
  dossier : t.dossier = s.dossier
  clock : t.clock = s.clock

theorem Aside.refl (s : Database) : Aside s s := ⟨rfl, rfl⟩

theorem Aside.trans {s t u : Database} (h : Aside s t) (h' : Aside t u) : Aside s u :=
  ⟨h'.dossier.trans h.dossier, h'.clock.trans h.clock⟩

/-- The dossier of `a` became `d`; the others are what they were. -/
structure Became (a : AuctionId) (d : Dossier) (s t : Database) : Prop where
  here : t.dossier a = d
  there : ∀ b, b ≠ a → t.dossier b = s.dossier b
  clock : t.clock = s.clock

section Became
variable {a : AuctionId} {d e : Dossier} {s t u : Database}

theorem Aside.became (h : Aside s t) (a : AuctionId) : Became a (s.dossier a) s t :=
  ⟨congrFun h.dossier a, fun b _ => congrFun h.dossier b, h.clock⟩

theorem became_amend (a : AuctionId) (f : Dossier → Dossier) (s : Database) :
    Became a (f (s.dossier a)) s (s.amend a f) :=
  ⟨amend_self s a f, fun _ hb => amend_other s a f hb, rfl⟩

theorem Became.trans (h : Became a d s t) (h' : Became a e t u) : Became a e s u :=
  ⟨h'.here, fun b hb => (h'.there b hb).trans (h.there b hb), h'.clock.trans h.clock⟩

theorem Became.aside (h : Became a d s t) (h' : Aside t u) : Became a d s u := by
  have hstay := h'.became a
  rw [h.here] at hstay
  exact h.trans hstay

end Became

section Statements
variable {β : Type} {sees : Database → Database → Prop} {s s' : Database} {a : AuctionId} {pk : Nat}
variable {out : Except PyError β} {f : Unit → Prog β}

theorem exec_now_bind {f : Time → Prog β} :
    (now >>= f).Exec sees s out s' ↔ ∃ u, sees s u ∧ (f u.clock).Exec sees s out s' := Iff.rfl

theorem exec_lockedAuction_bind {f : Auction → Prog β} :
    (lockedAuction a >>= f).Exec sees s out s' ↔ (f (s.dossier a).row).Exec sees s out s' := Iff.rfl

theorem exec_saveAuction (g : Auction → Auction) {out : Except PyError Unit} :
    (saveAuction a g).Exec sees s out s' ↔ out = .ok () ∧ s' = s.amend a (.onRow g) := Iff.rfl

theorem exec_saveAuction_bind (g : Auction → Auction) : (saveAuction a g >>= f).Exec sees s out s' ↔
    (f ()).Exec sees (s.amend a (.onRow g)) out s' := Iff.rfl

theorem exec_createStatusLog_bind (log : StatusLog) :
    (createStatusLog a log >>= f).Exec sees s out s' ↔
      (f ()).Exec sees (s.amend a (.addLog log)) out s' := Iff.rfl

theorem exec_savePayment (g : Payment → Payment) {out : Except PyError Unit} :
    (savePayment a pk g).Exec sees s out s' ↔ out = .ok () ∧ s' = s.amend a (.onPayment pk g) :=
  Iff.rfl

theorem exec_saveBid_bind (g : Bid → Bid) : (saveBid a pk g >>= f).Exec sees s out s' ↔
    (f ()).Exec sees (s.amend a (.onBid pk g)) out s' := Iff.rfl

theorem exec_savePayment_bind (g : Payment → Payment) :
    (savePayment a pk g >>= f).Exec sees s out s' ↔
      (f ()).Exec sees (s.amend a (.onPayment pk g)) out s' := Iff.rfl

theorem exec_insertDispute_bind (dispute : Dispute) :
    (insertDispute a dispute >>= f).Exec sees s out s' ↔
      (f ()).Exec sees (s.amend a (.addDispute dispute)) out s' := Iff.rfl

theorem exec_saveDispute_bind (g : Dispute → Dispute) :
    (saveDispute a pk g >>= f).Exec sees s out s' ↔
      (f ()).Exec sees (s.amend a (.onDispute pk g)) out s' := Iff.rfl

theorem exec_lockedDispute_bind {f : Dispute → Prog β} :
    (lockedDispute a pk >>= f).Exec sees s out s' ↔
      ((s.dossier a).disputes.find? (fun x => x.pk = pk) = none ∧ out = .error .doesNotExist ∧
        s' = s) ∨
      ∃ x, (s.dossier a).disputes.find? (fun x => x.pk = pk) = some x ∧
        (f x).Exec sees s out s' := by
  change ((Tx.require ((s.dossier a).disputes.find? (fun x => x.pk = pk)) .doesNotExist).bind
    f).Exec sees s out s' ↔ _
  exact exec_require_bind _ _

theorem exec_saveVerification {profile : Profile} {status : VerificationStatus} {actor : UserId}
    {out : Except PyError Profile} : (saveVerification profile status actor).Exec sees s out s' ↔
      ∃ u, sees s u ∧ ∃ v, sees s v ∧
        out = .ok (profile.verifiedWith status actor u.clock v.clock) ∧
        s' = s.verify profile.ref status actor u.clock v.clock := Iff.rfl

theorem exec_saveAccountStatus {x : UserId} {row : BidderProfile} {status : AccountStatus}
    {out : Except PyError Profile} : (saveAccountStatus x row status).Exec sees s out s' ↔
      ∃ u, sees s u ∧ out = .ok (.bidder x (row.withAccountStatus status u.clock)) ∧
        s' = s.onBidder x (.withAccountStatus status u.clock) := Iff.rfl

theorem exec_record {actor : Option UserId} {action : AuditAction} {obj : ObjRef} {reason : String}
    {out : Except PyError Unit} : (record actor action obj reason).Exec sees s out s' ↔
      out = .ok () ∧ s' = { s with audit := s.audit ++ [⟨actor, action, obj, reason⟩] } := Iff.rfl

theorem exec_createNotification {user : UserId} {n : Notice} {out : Except PyError Nat} :
    (createNotification user n).Exec sees s out s' ↔ ∃ pk, out = .ok pk ∧
      s' = { s with notifications :=
        s.notifications ++ [⟨pk, user, n.event, .inApp, n.title, n.message, n.obj, n.link⟩] } := Iff.rfl

theorem exec_send {m : Nat} {out : Except PyError Unit} :
    (Tx.send m : Prog Unit).Exec sees s out s' ↔ out = .ok () ∧ s' = s := Iff.rfl

theorem exec_nextPk_bind {pks : Dossier → List Nat} {f : Nat → Prog β} :
    (nextPk a pks >>= f).Exec sees s out s' ↔ ∃ n,
      (n ∈ pks (s.dossier a) ∧ out = .error (.integrityError "pkey") ∧ s' = s) ∨
      (n ∉ pks (s.dossier a) ∧ (f n).Exec sees s out s') := by
  refine exists_congr fun n => ?_
  change ((Tx.refuse (n ∈ pks (s.dossier a)) (.integrityError "pkey") >>= fun _ => pure n).bind
    f).Exec sees s out s' ↔ _
  by_cases h : n ∈ pks (s.dossier a)
  · simp [Tx.refuse, h, bind, Tx.bind]
  · simp only [Tx.refuse, h, bind, Tx.bind, ↓reduceIte, false_and, false_or, not_false_eq_true,
      true_and]
    exact Iff.rfl

end Statements

/-- The profiles are not about any auction. -/
theorem aside_verify (p : ProfileRef) (status : VerificationStatus) (actor : UserId)
    (t saved : Time) (s : Database) : Aside s (s.verify p status actor t saved) := by
  cases p <;> exact ⟨rfl, rfl⟩

section Quiet
variable {a : AuctionId}

theorem Aside.quiet_bind {α β : Type} {p : Prog α} {f : α → Prog β} (hp : p.Quiet Aside)
    (hf : ∀ x, (f x).Quiet Aside) : (p >>= f).Quiet Aside :=
  Tx.Quiet.bind (R := Aside) Aside.trans hp hf

theorem quiet_pure {α : Type} (x : α) : (pure x : Prog α).Quiet Aside := by
  refine ⟨fun hx => ?_⟩
  obtain ⟨rfl, rfl⟩ := hx
  exact ⟨⟨x, rfl⟩, .refl _⟩

theorem quiet_query {α : Type} (f : Database → α) : (Tx.query f : Prog α).Quiet Aside := by
  refine ⟨fun hx => ?_⟩
  obtain ⟨rfl, rfl⟩ := hx
  exact ⟨⟨_, rfl⟩, .refl _⟩

theorem quiet_record (actor : Option UserId) (action : AuditAction) (obj : ObjRef)
    (reason : String) : (record actor action obj reason).Quiet Aside := by
  refine ⟨fun hx => ?_⟩
  obtain ⟨rfl, rfl⟩ := hx
  exact ⟨⟨(), rfl⟩, rfl, rfl⟩

theorem quiet_createNotification (user : UserId) (n : Notice) :
    (createNotification user n).Quiet Aside := by
  refine ⟨fun hx => ?_⟩
  obtain ⟨pk, rfl, rfl⟩ := hx
  exact ⟨⟨pk, rfl⟩, rfl, rfl⟩

theorem quiet_send (m : Nat) : (Tx.send m : Prog Unit).Quiet Aside := by
  refine ⟨fun hx => ?_⟩
  obtain ⟨rfl, rfl⟩ := hx
  exact ⟨⟨(), rfl⟩, .refl _⟩

theorem quiet_notify (n : Notice) : (notify n).Quiet Aside := by
  unfold notify
  cases n.recipient with
  | none => exact quiet_pure ()
  | some user => exact Aside.quiet_bind (quiet_createNotification user n) quiet_send

theorem quiet_forEach {α : Type} (xs : List α) {p : α → Prog Unit} (hp : ∀ x, (p x).Quiet Aside) :
    (Tx.forEach xs p).Quiet Aside :=
  Tx.Quiet.forEach (R := Aside) Aside.refl Aside.trans hp xs

theorem quiet_when (c : Prop) [Decidable c] {p : Prog Unit} (hp : p.Quiet Aside) :
    (Tx.when c p).Quiet Aside := by
  by_cases h : c
  · rwa [Tx.when, if_pos h]
  · rw [Tx.when, if_neg h]
    exact quiet_pure ()

theorem quiet_notifyOutbid (auction : Auction) (bid : Bid) (amount : String) :
    (notifyOutbid a auction bid amount).Quiet Aside := by
  refine Aside.quiet_bind (quiet_query _) (fun bids => ?_)
  cases firstBy latestHighestFirst ((accepted bids).filter (fun b => b.pk ≠ bid.pk)) with
  | none => exact quiet_pure ()
  | some b =>
    by_cases hb : b.bidder = bid.bidder
    · simpa only [hb, ↓reduceIte] using quiet_pure ()
    · simpa only [hb, ↓reduceIte] using quiet_notify _

theorem quiet_notifyAuctionUpdate (auction : Auction) (event : NotificationEvent)
    (title message : String) : (notifyAuctionUpdate a auction event title message).Quiet Aside :=
  Aside.quiet_bind (quiet_query _) (fun _ => quiet_forEach _ (fun _ => quiet_notify _))

theorem quiet_notifyPaymentReceived (auction : Auction) (payment : Payment) :
    (notifyPaymentReceived a auction payment).Quiet Aside :=
  Aside.quiet_bind (quiet_notify _) (fun _ => quiet_notify _)

theorem quiet_recordTransition (toStatus : Status) (actor : Option UserId) (reason : String) :
    (recordTransition a toStatus actor reason).Quiet Aside := by
  unfold recordTransition
  split
  · exact quiet_record ..
  · exact quiet_pure ()

theorem quiet_notifyTransition (auction : Auction) (toStatus : Status) (reason : String) :
    (notifyTransition a auction toStatus reason).Quiet Aside := by
  unfold notifyTransition
  split
  · exact quiet_notify _
  · exact quiet_notify _
  · exact quiet_notify _
  · exact quiet_pure ()

end Quiet

section Transition
variable {sees : Database → Database → Prop} {s s' : Database} {a : AuctionId}
variable {toStatus : Status} {actor : Option UserId} {reason : String}

theorem transition_ok {row : Auction}
    (h : (transition a toStatus actor reason).Exec sees s (.ok row) s') :
    toStatus ∈ allowedTransitions (s.dossier a).row.status ∧
    (toStatus = .rejected → reason ≠ "") ∧
    row = (s.dossier a).row.withStatus toStatus ∧
    Became a ((s.dossier a).entered toStatus actor reason) s s' := by
  simp only [transition, exec_lockedAuction_bind, exec_refuse_bind, exec_saveAuction_bind,
    exec_createStatusLog_bind, reduceCtorEq, false_and, and_false, false_or] at h
  obtain ⟨hallowed, hreason, h⟩ := h
  obtain ⟨_, t, ht, h⟩ := (quiet_recordTransition ..).skip h
  obtain ⟨_, u, hu, hrow, hlast⟩ := (quiet_notifyTransition ..).skip h
  cases hrow
  subst hlast
  refine ⟨not_not.mp hallowed, fun hr hblank => hreason ⟨hr, hblank⟩, rfl, ?_⟩
  have hsaved := (became_amend a (.onRow (.withStatus toStatus)) s).trans
    (became_amend a (.addLog ⟨(s.dossier a).row.status, toStatus, actor, reason⟩) _)
  rw [amend_self] at hsaved
  exact (hsaved.aside ht).aside hu

/-- `transition` raises only what it checks for. -/
theorem transition_error {e : PyError}
    (h : (transition a toStatus actor reason).Exec sees s (.error e) s') :
    toStatus ∉ allowedTransitions (s.dossier a).row.status ∨ toStatus = .rejected ∧ reason = "" := by
  simp only [transition, exec_lockedAuction_bind, exec_refuse_bind, exec_saveAuction_bind,
    exec_createStatusLog_bind] at h
  rcases h with ⟨hnot, _⟩ | ⟨_, ⟨hblank, _⟩ | ⟨_, h⟩⟩
  · exact .inl hnot
  · exact .inr hblank
  · obtain ⟨_, t, _, h⟩ := (quiet_recordTransition ..).skip h
    obtain ⟨_, u, _, hend, _⟩ := (quiet_notifyTransition ..).skip h
    cases hend

end Transition

/-- Whom a notification tells what. -/
def Notification.told (n : Notification) : UserId × NotificationEvent × ObjRef :=
  (n.recipient, n.event, n.obj)

/-- What `notify` tells whom. -/
def Notice.told (n : Notice) : List (UserId × NotificationEvent × ObjRef) :=
  n.recipient.toList.map fun u => (u, n.event, n.obj)

/-- All that has happened: the dossier of `a` became `d`, and these audit rows and
notifications were written. -/
structure Leaves (a : AuctionId) (d : Dossier) (rows : List AuditLog)
    (told : List (UserId × NotificationEvent × ObjRef)) (s t : Database) : Prop where
  became : Became a d s t
  profiles : t.sellerProfiles = s.sellerProfiles ∧ t.bidderProfiles = s.bidderProfiles
  audited : t.audit = s.audit ++ rows
  notified : ∃ notes, t.notifications = s.notifications ++ notes ∧
    notes.map Notification.told = told

/-- What a notification says to whom, but for its text. -/
structure Sent where
  recipient : UserId
  event : NotificationEvent
  obj : ObjRef
  link : String
deriving DecidableEq, Repr

def Sent.told (x : Sent) : UserId × NotificationEvent × ObjRef := (x.recipient, x.event, x.obj)

def Notification.sent (n : Notification) : Sent := ⟨n.recipient, n.event, n.obj, n.link⟩

/-- What `notify` sends. -/
def Notice.sent (n : Notice) : List Sent :=
  n.recipient.toList.map fun u => ⟨u, n.event, n.obj, n.link⟩

/-- All that has happened, and to nobody else: the dossier of `a` became `d`, and these
audit rows and notifications were written. -/
structure Writes (a : AuctionId) (d : Dossier) (rows : List AuditLog) (sent : List Sent)
    (s t : Database) : Prop where
  became : Became a d s t
  profiles : t.sellerProfiles = s.sellerProfiles ∧ t.bidderProfiles = s.bidderProfiles
  people : t.auctionPks = s.auctionPks ∧ t.userPks = s.userPks ∧ t.users = s.users
  audited : t.audit = s.audit ++ rows
  notified : ∃ notes, t.notifications = s.notifications ++ notes ∧
    notes.map Notification.sent = sent

/-- The audit rows of a transition. -/
def transitionAudit (a : AuctionId) (toStatus : Status) (actor : Option UserId) (reason : String) :
    List AuditLog :=
  (auditActionForTransition toStatus).toList.map fun action => ⟨actor, action, .auction a, reason⟩

/-- What the seller is told about a transition. -/
def Status.announcement : Status → Option NotificationEvent
  | approved => some .listingApproved
  | rejected => some .listingRejected
  | live => some .auctionLive
  | draft | submitted | scheduled | paused | closed | settled | completed | cancelled | disputed =>
    none

/-- What is sent about a transition: a rejection has no link. -/
def Status.sent (toStatus : Status) (a : AuctionId) (seller : UserId) : List Sent :=
  toStatus.announcement.toList.map fun event =>
    ⟨seller, event, .auction a, if toStatus = .rejected then "" else auctionLink a⟩

section Writes
variable {sees : Database → Database → Prop} {s s' t u : Database} {a : AuctionId} {d e : Dossier}
variable {rows rows' : List AuditLog} {sent sent' : List Sent}
variable {toStatus : Status} {actor : Option UserId} {reason : String}

theorem Writes.trans (h : Writes a d rows sent s t) (h' : Writes a e rows' sent' t u) :
    Writes a e (rows ++ rows') (sent ++ sent') s u := by
  obtain ⟨notes, hnotes, hsent⟩ := h.notified
  obtain ⟨notes', hnotes', hsent'⟩ := h'.notified
  refine ⟨h.became.trans h'.became, ⟨h'.profiles.1.trans h.profiles.1,
    h'.profiles.2.trans h.profiles.2⟩, ⟨h'.people.1.trans h.people.1,
    h'.people.2.1.trans h.people.2.1, h'.people.2.2.trans h.people.2.2⟩, ?_, notes ++ notes', ?_, ?_⟩
  · rw [h'.audited, h.audited, List.append_assoc]
  · rw [hnotes', hnotes, List.append_assoc]
  · rw [List.map_append, hsent, hsent']

/-- What leaves the dossier as it is. -/
theorem Writes.stay (h : Writes a d rows sent s t)
    (h' : Writes a (t.dossier a) rows' sent' t u) :
    Writes a d (rows ++ rows') (sent ++ sent') s u := by
  rw [h.became.here] at h'
  exact h.trans h'

/-- What goes on from the dossier that was left. -/
theorem Writes.next {f : Dossier → Dossier} (h : Writes a d rows sent s t)
    (h' : Writes a (f (t.dossier a)) rows' sent' t u) :
    Writes a (f d) (rows ++ rows') (sent ++ sent') s u := by
  rw [h.became.here] at h'
  exact h.trans h'

theorem writes_amend (a : AuctionId) (f : Dossier → Dossier) (s : Database) :
    Writes a (f (s.dossier a)) [] [] s (s.amend a f) :=
  ⟨became_amend a f s, ⟨rfl, rfl⟩, ⟨rfl, rfl, rfl⟩, (List.append_nil _).symm, [],
    (List.append_nil _).symm, rfl⟩

theorem writes_refl (a : AuctionId) (s : Database) : Writes a (s.dossier a) [] [] s s :=
  ⟨(Aside.refl s).became a, ⟨rfl, rfl⟩, ⟨rfl, rfl, rfl⟩, (List.append_nil _).symm, [],
    (List.append_nil _).symm, rfl⟩

theorem record_writes {action : AuditAction} {obj : ObjRef} {out : Except PyError Unit}
    (h : (record actor action obj reason).Exec sees s out s') :
    Writes a (s.dossier a) [⟨actor, action, obj, reason⟩] [] s s' := by
  obtain ⟨_, rfl⟩ := exec_record.mp h
  exact ⟨⟨rfl, fun _ _ => rfl, rfl⟩, ⟨rfl, rfl⟩, ⟨rfl, rfl, rfl⟩, rfl, [],
    (List.append_nil _).symm, rfl⟩

/-- Nobody is told nothing; everybody else gets one notification. -/
theorem notify_writes {n : Notice} {out : Except PyError Unit}
    (h : (notify n).Exec sees s out s') : Writes a (s.dossier a) [] n.sent s s' := by
  unfold notify at h
  unfold Notice.sent
  split at h
  · obtain ⟨_, rfl⟩ := h
    simp only [*, Option.toList_none, List.map_nil]
    exact writes_refl a s'
  · obtain ⟨pk, _, rfl⟩ := h
    exact ⟨⟨rfl, fun _ _ => rfl, rfl⟩, ⟨rfl, rfl⟩, ⟨rfl, rfl, rfl⟩, (List.append_nil _).symm, [_],
      rfl, by simp [*, Notification.sent]⟩

/-- One notice after another. -/
theorem notifyAll_writes {α : Type} {n : α → Notice} {xs : List α} {x : Unit}
    (h : (Tx.forEach xs fun x => notify (n x)).Exec sees s (.ok x) s') :
    Writes a (s.dossier a) [] (xs.flatMap fun x => (n x).sent) s s' := by
  induction xs generalizing s with
  | nil =>
    obtain ⟨_, rfl⟩ := (exec_pure () _).mp h
    exact writes_refl a s'
  | cons x xs ih =>
    obtain ⟨_, t, hfirst, hrest⟩ := (exec_bind_ok (notify (n x)) _ _).mp h
    exact (notify_writes hfirst).stay (ih hrest)

theorem recordTransition_writes {out : Except PyError Unit}
    (h : (recordTransition a toStatus actor reason).Exec sees s out s') :
    Writes a (s.dossier a) (transitionAudit a toStatus actor reason) [] s s' := by
  unfold recordTransition at h
  unfold transitionAudit
  split at h
  · simp only [*, Option.toList_some, List.map_cons, List.map_nil]
    exact record_writes h
  · obtain ⟨_, rfl⟩ := h
    simp only [*, Option.toList_none, List.map_nil]
    exact writes_refl a s'

theorem notifyTransition_writes {auction : Auction} {out : Except PyError Unit}
    (h : (notifyTransition a auction toStatus reason).Exec sees s out s') :
    Writes a (s.dossier a) [] (toStatus.sent a auction.seller) s s' := by
  unfold notifyTransition at h
  split at h
  · exact notify_writes h
  · exact notify_writes h
  · exact notify_writes h
  · obtain ⟨_, rfl⟩ := h
    have hnone : toStatus.announcement = none := by
      cases toStatus <;> first | rfl | contradiction
    simp only [Status.sent, hnone, Option.toList_none, List.map_nil]
    exact writes_refl a s'

/-- All that a transition writes. -/
theorem transition_writes {row : Auction}
    (h : (transition a toStatus actor reason).Exec sees s (.ok row) s') :
    Writes a ((s.dossier a).entered toStatus actor reason) (transitionAudit a toStatus actor reason)
      (toStatus.sent a (s.dossier a).row.seller) s s' := by
  simp only [transition, exec_lockedAuction_bind, exec_refuse_bind, exec_saveAuction_bind,
    exec_createStatusLog_bind, reduceCtorEq, false_and, and_false, false_or] at h
  obtain ⟨_, _, h⟩ := h
  obtain ⟨_, t, hrecord, h⟩ := (exec_bind_ok ..).mp h
  obtain ⟨_, u, hnotify, _, rfl⟩ := (exec_bind_ok ..).mp h
  have hmoved := (writes_amend a (.onRow (.withStatus toStatus)) s).trans (writes_amend a
    (.addLog ⟨(s.dossier a).row.status, toStatus, actor, reason⟩) _)
  rw [amend_self] at hmoved
  have hall := (hmoved.stay (recordTransition_writes hrecord)).stay (notifyTransition_writes hnotify)
  simp only [List.nil_append, List.append_nil] at hall
  exact hall

end Writes

section Leaves
variable {sees : Database → Database → Prop} {s s' t u : Database} {a : AuctionId} {d e : Dossier}
variable {rows rows' : List AuditLog} {told told' : List (UserId × NotificationEvent × ObjRef)}
variable {toStatus : Status} {actor : Option UserId} {reason : String}

theorem Writes.leaves {sent : List Sent} (h : Writes a d rows sent s t) :
    Leaves a d rows (sent.map Sent.told) s t := by
  obtain ⟨notes, hnotes, hsent⟩ := h.notified
  refine ⟨h.became, h.profiles, h.audited, notes, hnotes, ?_⟩
  rw [← hsent, List.map_map]
  rfl

end Leaves

end MbararaAuction
