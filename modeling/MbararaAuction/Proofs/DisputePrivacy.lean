import MbararaAuction.Model.DisputePages
import MbararaAuction.Proofs.Bids
import MbararaAuction.Proofs.Effects

namespace MbararaAuction
open Transactions Queries

seal Tx.Exec

section Viewing
variable {s : Database} {a : AuctionId} {u : UserId} {row : User} {dispute : Dispute}

/-- The viewing rule: staff, the one who raised the dispute, the seller and the winner. -/
theorem canViewDispute_iff : canViewDispute s (.user u row) a dispute = true ↔
    row.isOfficerOrAdmin = true ∨ u = dispute.raisedBy ∨ u = (s.dossier a).row.seller ∨
      (s.dossier a).row.winner = some u := by
  simp only [canViewDispute, Bool.or_eq_true, List.contains_iff_mem, List.mem_cons,
    Option.some.injEq, List.not_mem_nil, or_false]
  rw [eq_comm (a := some u)]

theorem mem_allDisputes :
    (a, dispute) ∈ allDisputes s ↔ a ∈ s.auctionPks ∧ dispute ∈ (s.dossier a).disputes := by
  simp [allDisputes]

/-- The list query asks for the same people, but for staff. -/
theorem mem_myDisputes : (a, dispute) ∈ myDisputes s u ↔
    (a ∈ s.auctionPks ∧ dispute ∈ (s.dossier a).disputes) ∧
      (u = dispute.raisedBy ∨ u = (s.dossier a).row.seller ∨ (s.dossier a).row.winner = some u) := by
  simp only [myDisputes, List.mem_dedup, List.mem_filter, mem_allDisputes, Bool.or_eq_true,
    beq_iff_eq, or_assoc]
  rw [eq_comm (a := u), eq_comm (a := u)]

/-- Somebody without staff rights finds in the list what the rule lets them see. -/
theorem myDisputes_iff (ha : a ∈ s.auctionPks) (hd : dispute ∈ (s.dossier a).disputes)
    (hplain : row.isOfficerOrAdmin = false) :
    (a, dispute) ∈ myDisputes s u ↔ canViewDispute s (.user u row) a dispute = true := by
  rw [mem_myDisputes, canViewDispute_iff, hplain]
  simp [ha, hd]

/-- The page of a dispute opens for those whom the rule lets see it. -/
theorem disputeDetail_opens {viewer : Viewer} {pk : Nat}
    (hfound : (allDisputes s).find? (fun x => x.2.pk = pk) = some (a, dispute)) :
    (∃ page, disputeDetail s viewer pk = .ok page) ↔ canViewDispute s viewer a dispute = true := by
  unfold disputeDetail
  simp only [hfound]
  cases hview : canViewDispute s viewer a dispute with
  | false => exact iff_of_false (fun ⟨page, hpage⟩ => by cases hpage) (by decide)
  | true => exact iff_of_true ⟨_, rfl⟩ rfl

end Viewing

section Recipients
variable {s : Database} {auction : Auction} {raisedBy u : UserId} {recipients : List UserId}
variable {other : Option UserId}

theorem mem_withOther : u ∈ withOther recipients other ↔ u ∈ recipients ∨ other = some u := by
  cases other with
  | none => simp [withOther]
  | some x =>
    rw [withOther, mem_withKey, Option.some.injEq]
    rw [eq_comm (a := u)]

theorem withOther_nodup (h : recipients.Nodup) : (withOther recipients other).Nodup := by
  cases other with
  | none => exact h
  | some x => exact withKey_nodup h

/-- The other party is the seller or the winner. -/
theorem otherParty_party (h : otherParty auction raisedBy = some u) :
    u = auction.seller ∨ auction.winner = some u := by
  unfold otherParty at h
  split at h
  · exact .inr h
  · exact .inl (Option.some.inj h).symm

theorem staffUsers_staff (h : u ∈ staffUsers s) : (s.users u).isOfficerOrAdmin = true := by
  obtain ⟨_, hstaff⟩ := List.mem_filter.mp h
  exact (Bool.and_eq_true_iff.mp hstaff).1

theorem openingRecipients_nodup (hkeys : s.userPks.Nodup) :
    (openingRecipients s auction raisedBy).Nodup :=
  (withOther_nodup (hkeys.filter _)).filter _

theorem raiser_untold : raisedBy ∉ openingRecipients s auction raisedBy := by
  simp [openingRecipients]

theorem openingRecipients_concerned (h : u ∈ openingRecipients s auction raisedBy) :
    (s.users u).isOfficerOrAdmin = true ∨ u = auction.seller ∨ auction.winner = some u := by
  obtain ⟨hmem, _⟩ := List.mem_filter.mp h
  rcases mem_withOther.mp hmem with hstaff | hother
  · exact .inl (staffUsers_staff hstaff)
  · exact .inr (otherParty_party hother)

theorem resolvingRecipients_nodup : (resolvingRecipients auction raisedBy).Nodup :=
  withOther_nodup (List.nodup_singleton raisedBy)

theorem resolvingRecipients_concerned (h : u ∈ resolvingRecipients auction raisedBy) :
    u = raisedBy ∨ u = auction.seller ∨ auction.winner = some u := by
  rcases mem_withOther.mp h with hraiser | hother
  · exact .inl (List.mem_singleton.mp hraiser)
  · exact .inr (otherParty_party hother)

end Recipients

/-- Between the two states exactly these users were told about the dispute, nobody twice,
and each of them may see it. -/
structure Confides (event : NotificationEvent) (a : AuctionId) (dispute : Dispute)
    (users : List UserId) (s t : Database) : Prop where
  told : ∃ notes, t.notifications = s.notifications ++ notes ∧
    notes.map Notification.told = users.map fun u => (u, event, .dispute a dispute.pk)
  once : users.Nodup
  allowed : ∀ u ∈ users, canViewDispute t (.user u (t.users u)) a dispute = true

section Operations
variable {s t : Database} {a : AuctionId} {d : Dossier} {rows : List AuditLog} {dispute : Dispute}
variable {event : NotificationEvent} {users : List UserId}

/-- What is sent about a dispute is confided if it is sent to people whom it concerns. -/
theorem Writes.confides (h : Writes a d rows (disputeSent a dispute.pk event users) s t)
    (hseller : d.row.seller = (s.dossier a).row.seller)
    (hwinner : d.row.winner = (s.dossier a).row.winner) (honce : users.Nodup)
    (hconcerned : ∀ u ∈ users, (s.users u).isOfficerOrAdmin = true ∨ u = dispute.raisedBy ∨
      u = (s.dossier a).row.seller ∨ (s.dossier a).row.winner = some u) :
    Confides event a dispute users s t := by
  obtain ⟨notes, hnotes, hsent⟩ := h.notified
  refine ⟨⟨notes, hnotes, ?_⟩, honce, ?_⟩
  · have htold := congrArg (List.map Sent.told) hsent
    rw [disputeSent, List.map_map, List.map_map] at htold
    exact htold
  · intro u hu
    rw [canViewDispute_iff, h.people.2.2, h.became.here, hseller, hwinner]
    exact hconcerned u hu

/-- A dispute that is opened is confided, and not to the one who raises it. -/
theorem openDispute_confides {raisedBy : UserId} {category description : String}
    (hkeys : s.userPks.Nodup)
    (h : (openDispute a raisedBy category description).Exec Exact s (.ok dispute) t) :
    ∃ users, Confides .disputeOpened a dispute users s t ∧ dispute.raisedBy ∉ users := by
  obtain ⟨_, hraiser, _, _, reason, hwrites⟩ := openDispute_writes h
  refine ⟨_, hwrites.confides rfl rfl (openingRecipients_nodup hkeys) ?_, ?_⟩
  · intro u hu
    rcases openingRecipients_concerned hu with hstaff | hparty
    · exact .inl hstaff
    · exact .inr (.inr hparty)
  · rw [hraiser]
    exact raiser_untold

/-- So is a dispute that is resolved. -/
theorem resolveDispute_confides {pk : Nat} {actor : UserId} {outcome notes : String}
    {refund : Bool}
    (h : (resolveDispute a pk actor outcome notes refund).Exec Exact s (.ok dispute) t) :
    ∃ users, Confides .disputeResolved a dispute users s t := by
  obtain ⟨y, result, reason, restored, hfound, rfl, hwrites⟩ := resolveDispute_writes h
  have hkey : (y.resolvedWith actor result (strip notes) refund s.clock).pk = pk :=
    (find_key hfound).2
  rw [← hkey] at hwrites
  refine ⟨_, hwrites.confides ?_ ?_ resolvingRecipients_nodup ?_⟩
  · rw [Dossier.onDispute_row, returned_row, (refundedBy_frame ..).1]
    rfl
  · rw [Dossier.onDispute_row, returned_row, (refundedBy_frame ..).1]
    rfl
  · intro u hu
    exact .inr (resolvingRecipients_concerned hu)

end Operations

section Bidders
variable {db : Database} {before : List (Site × SiteEvent)} {c : Site} {a : AuctionId} {b : Bid}

/-- A bidder who neither raised the dispute nor won sees nothing of it: the seller never bids. -/
theorem loser_sees_nothing (hrun : SiteRun db before c) (hfresh : Fresh (db.dossier a))
    (hb : b ∈ (c.dossier a).bids) {dispute : Dispute} (hraiser : b.bidder ≠ dispute.raisedBy)
    (hwinner : (c.dossier a).row.winner ≠ some b.bidder) {row : User}
    (hplain : row.isOfficerOrAdmin = false) :
    canViewDispute c.world.db (.user b.bidder row) a dispute = false ∧
      (a, dispute) ∉ myDisputes c.world.db b.bidder := by
  have hseller : b.bidder ≠ (c.dossier a).row.seller := (run_bidBook hrun hfresh).outsider b hb
  have hparty : ¬ (b.bidder = dispute.raisedBy ∨ b.bidder = (c.dossier a).row.seller ∨
      (c.dossier a).row.winner = some b.bidder) := by
    simp [hraiser, hseller, hwinner]
  constructor
  · apply Bool.eq_false_of_not_eq_true
    rw [canViewDispute_iff, hplain]
    simpa using hparty
  · rw [mem_myDisputes]
    exact fun h => hparty h.2

end Bidders

/-- Who is told about a dispute may see it, nobody is told twice, and the one who raises it
is not told that it was opened. Everybody else but staff finds it in the list of their
disputes exactly if they may see it, and a bidder who neither raised it nor won does not. -/
theorem dispute_privacy :
    (∀ (w w' : World Database Nat) (a : AuctionId) (raisedBy : UserId)
      (category description : String) (dispute : Dispute), w.db.userPks.Nodup →
      (openDispute a raisedBy category description).atomic w = (.ok dispute, w') →
      ∃ users, Confides .disputeOpened a dispute users w.db w'.db ∧ dispute.raisedBy = raisedBy ∧
        raisedBy ∉ users) ∧
    (∀ (w w' : World Database Nat) (a : AuctionId) (pk : Nat) (actor : UserId)
      (outcome notes : String) (refund : Bool) (dispute : Dispute),
      (resolveDispute a pk actor outcome notes refund).atomic w = (.ok dispute, w') →
      ∃ users, Confides .disputeResolved a dispute users w.db w'.db) ∧
    (∀ (s : Database) (u : UserId) (a : AuctionId) (dispute : Dispute), a ∈ s.auctionPks →
      dispute ∈ (s.dossier a).disputes → (s.users u).isOfficerOrAdmin = false →
      ((a, dispute) ∈ myDisputes s u ↔
        canViewDispute s (.user u (s.users u)) a dispute = true)) ∧
    ∀ (db : Database) (before : List (Site × SiteEvent)) (c : Site) (a : AuctionId)
      (dispute : Dispute) (b : Bid), SiteRun db before c → Fresh (db.dossier a) →
      b ∈ (c.dossier a).bids → (c.world.db.users b.bidder).isOfficerOrAdmin = false →
      b.bidder ≠ dispute.raisedBy → (c.dossier a).row.winner ≠ some b.bidder →
      canViewDispute c.world.db (.user b.bidder (c.world.db.users b.bidder)) a dispute = false ∧
        (a, dispute) ∉ myDisputes c.world.db b.bidder := by
  refine ⟨?_, ?_, ?_, ?_⟩
  · intro w w' a raisedBy category description dispute hkeys h
    have hx := exec_of_atomic h
    obtain ⟨users, hconfides, huntold⟩ := openDispute_confides hkeys hx
    have hraiser := (openDispute_writes hx).2.1
    rw [hraiser] at huntold
    exact ⟨users, hconfides, hraiser, huntold⟩
  · intro w w' a pk actor outcome notes refund dispute h
    exact resolveDispute_confides (exec_of_atomic h)
  · intro s u a dispute ha hd hplain
    exact myDisputes_iff ha hd hplain
  · intro db before c a dispute b hrun hfresh hb hplain hraiser hwinner
    exact loser_sees_nothing hrun hfresh hb hraiser hwinner hplain

/-- The winner has raised a dispute that an officer can resolve; the other bidder sees
nothing of it. -/
theorem dispute_privacy_sample : ∃ (m : engine.Moment sampleDatabase) (dispute resolved : Dispute)
    (w' : World Database Nat) (users : List UserId), dispute ∈ (m.now.dossier 0).disputes ∧
    (resolveDispute 0 dispute.pk 0 "DISMISSED" "No fault" false).atomic m.now.world =
      (.ok resolved, w') ∧
    Confides .disputeResolved 0 resolved users m.rows w'.db ∧ (0, dispute) ∉ myDisputes m.rows 3 := by
  obtain ⟨m, hm⟩ := served_moment sampleDatabase
    (opening ++ [.call (.placeBid 0 3 (.int 600000)), .call (.placeBid 0 2 (.int 700000)),
      .call (.closeAuction 0 none), .call (.openDispute 0 2 "NOT_DELIVERED" "Nobody was there")])
    (fun w => (w.db.dossier 0).bids.any (fun b => b.bidder == 3) &&
      (w.db.dossier 0).row.winner == some 2 && !(w.db.users 3).isOfficerOrAdmin &&
      (w.db.dossier 0).disputes.any (fun x => x.raisedBy == 2 &&
        ((resolveDispute 0 x.pk 0 "DISMISSED" "No fault" false).atomic w).1.toOption.isSome))
    (by decide +kernel)
  simp only [Bool.and_eq_true, List.any_eq_true, beq_iff_eq, Bool.not_eq_true'] at hm
  obtain ⟨⟨⟨⟨b, hb, hbidder⟩, hwinner⟩, hplain⟩, dispute, hdispute, hraiser, hresolves⟩ := hm
  obtain ⟨_, hresolved, _, hloser⟩ := dispute_privacy
  cases hrun : (resolveDispute 0 dispute.pk 0 "DISMISSED" "No fault" false).atomic m.now.world with
  | mk out w' =>
    cases out with
    | error e =>
      rw [hrun] at hresolves
      cases hresolves
    | ok resolved =>
      obtain ⟨users, hconfides⟩ := hresolved _ _ _ _ _ _ _ _ _ hrun
      rw [← hbidder] at hplain
      have hunseen := hloser _ _ _ 0 dispute b m.run sample_fresh hb hplain
        (by rw [hbidder, hraiser]; decide) (by rw [hwinner, hbidder]; decide)
      rw [hbidder] at hunseen
      exact ⟨m, dispute, resolved, w', users, hdispute, hrun, hconfides, hunseen.2⟩

end MbararaAuction
