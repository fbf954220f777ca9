import MbararaAuction.Transactions.Outbox
import MbararaAuction.Transactions.Rules
import MbararaAuction.Model.Services

namespace MbararaAuction.Locking
open Transactions

/-- What the lock on an auction row protects: the row, its bids, and which
payments and disputes there are. -/
def auctionView (d : Dossier) : Auction × List Bid × List Nat × List Nat :=
  (d.row, d.bids, d.payments.map Payment.pk, d.disputes.map Dispute.pk)

/-- What the lock on a dispute row protects. -/
def disputeView (pk : Nat) (d : Dossier) : Option Dispute :=
  d.disputes.find? (fun x => x.pk = pk)

def AgreeOnRow : RowKey → Database → Database → Prop
  | .auction a, s, t => auctionView (s.dossier a) = auctionView (t.dossier a)
  | .dispute a pk, s, t => disputeView pk (s.dossier a) = disputeView pk (t.dossier a)
  | .bid _ _, _, _ => True
  | .payment _ _, _, _ => True
  | .profile _, _, _ => True

/-- The row locks of the services. Nothing is ever read under the lock of a bid, of a
payment or of a profile. -/
def rowLocks : Protection RowKey Database where
  Agree := AgreeOnRow
  refl k s := by cases k <;> simp [AgreeOnRow]
  symm {k s t} h := by
    cases k with
    | auction a => exact Eq.symm h
    | dispute a pk => exact Eq.symm h
    | bid | payment | profile => trivial
  trans {k s t u} h h' := by
    cases k with
    | auction a => exact Eq.trans h h'
    | dispute a pk => exact Eq.trans h h'
    | bid | payment | profile => trivial

variable {H : List RowKey} {a : AuctionId} {pk : Nat}

theorem view_of_auction (ha : .auction a ∈ H) {s t : Database} (h : rowLocks.AgreeOn H s t) :
    auctionView (s.dossier a) = auctionView (t.dossier a) := h _ ha

theorem view_of_dispute (hd : .dispute a pk ∈ H) {s t : Database} (h : rowLocks.AgreeOn H s t) :
    disputeView pk (s.dossier a) = disputeView pk (t.dossier a) := h _ hd

/-- A write that no lock protects from anyone. -/
theorem respects_of_same {g : Database → Database} (h : ∀ s, (g s).dossier = s.dossier) :
    rowLocks.Respects H g := by
  have hsame : ∀ k s, rowLocks.Agree k s (g s) := by
    intro k s
    cases k <;> simp [rowLocks, AgreeOnRow, h]
  refine ⟨fun s t hst k hk => ?_, fun k _ s => hsame k s⟩
  exact rowLocks.trans (rowLocks.symm (hsame k s)) (rowLocks.trans (hst k hk) (hsame k t))

/-- A write to the dossier of `a`, view by view: what is locked may change, as a
function of itself; what is not locked stays. -/
theorem respects_amend {f : Dossier → Dossier}
    (hrow : ∀ d e, auctionView d = auctionView e → auctionView (f d) = auctionView (f e))
    (hrow' : .auction a ∉ H → ∀ d, auctionView (f d) = auctionView d)
    (hdispute : ∀ pk d e, disputeView pk d = disputeView pk e →
      disputeView pk (f d) = disputeView pk (f e))
    (hdispute' : ∀ pk, .dispute a pk ∉ H → ∀ d, disputeView pk (f d) = disputeView pk d) :
    rowLocks.Respects H (fun s => s.amend a f) := by
  constructor
  · intro s t hst k hk
    have hk' := hst k hk
    cases k with
    | auction b =>
      by_cases hb : b = a
      · subst hb
        simpa only [rowLocks, AgreeOnRow, amend_self] using hrow _ _ hk'
      · simpa only [rowLocks, AgreeOnRow, amend_other _ _ _ hb] using hk'
    | dispute b pk =>
      by_cases hb : b = a
      · subst hb
        simpa only [rowLocks, AgreeOnRow, amend_self] using hdispute pk _ _ hk'
      · simpa only [rowLocks, AgreeOnRow, amend_other _ _ _ hb] using hk'
    | bid | payment | profile => trivial
  · intro k hk s
    cases k with
    | auction b =>
      by_cases hb : b = a
      · subst hb
        simpa only [rowLocks, AgreeOnRow, amend_self] using (hrow' hk _).symm
      · simp only [rowLocks, AgreeOnRow, amend_other _ _ _ hb]
    | dispute b pk =>
      by_cases hb : b = a
      · subst hb
        simpa only [rowLocks, AgreeOnRow, amend_self] using (hdispute' pk hk _).symm
      · simp only [rowLocks, AgreeOnRow, amend_other _ _ _ hb]
    | bid | payment | profile => trivial

/-- A write that leaves the disputes alone. -/
theorem respects_amend_row {f : Dossier → Dossier} (hd : ∀ d, (f d).disputes = d.disputes)
    (hrow : ∀ d e, auctionView d = auctionView e → auctionView (f d) = auctionView (f e))
    (hrow' : .auction a ∉ H → ∀ d, auctionView (f d) = auctionView d) :
    rowLocks.Respects H (fun s => s.amend a f) := by
  refine respects_amend hrow hrow' ?_ ?_
  · intro pk d e h
    simpa only [disputeView, hd] using h
  · intro pk _ d
    simp only [disputeView, hd]

/-- The body keeps the locking discipline when it starts with the locks `H`, and
gives none of them back. -/
structure Keeps {α : Type} (H : List RowKey) (p : Prog α) : Prop where
  guarded : p.Guarded rowLocks H (fun H' _ => H ⊆ H')

/-- What the statements of the services write. -/
inductive Write : (Database → Database) → Prop where
  | nothing : Write id
  | amend (a : AuctionId) (f : Dossier → Dossier) : Write (fun s => s.amend a f)
  | audit (row : AuditLog) : Write (fun s => { s with audit := s.audit ++ [row] })
  | seller (u : UserId) (f : SellerProfile → SellerProfile) : Write (.onSeller u f)
  | bidder (u : UserId) (f : BidderProfile → BidderProfile) : Write (.onBidder u f)
  | notification (row : Notification) :
      Write (fun s => { s with notifications := s.notifications ++ [row] })

/-- The notification that a message is about is in its table. -/
def Stored (pk : Nat) (s : Database) : Prop := pk ∈ s.notifications.map Notification.pk

instance (pk : Nat) (s : Database) : Decidable (Stored pk s) := by
  unfold Stored
  infer_instance

/-- A body made of the statements of the services: it keeps the locking discipline, and
publishes the notifications that it stores and nothing else. -/
structure Lawful {α : Type} (H : List RowKey) (p : Prog α) : Prop where
  keeps : Keeps H p
  writes : p.Writes Write
  announces : ∀ own, p.Announces Stored own
  balances : p.Balances Stored

section Lawful
variable {α β : Type} {p : Prog α} {f : α → Prog β}

theorem Keeps.andThen (hp : Keeps H p) (hf : ∀ x, Keeps H (f x)) : Keeps H (p >>= f) := by
  refine ⟨hp.guarded.andThen fun H' x hH => ?_⟩
  exact (hf x).guarded.weaken hH fun hsub hpost => List.Subset.trans hpost hsub

theorem Lawful.andThen (hp : Lawful H p) (hf : ∀ x, Lawful H (f x)) : Lawful H (p >>= f) :=
  ⟨hp.keeps.andThen fun x => (hf x).keeps, hp.writes.bind fun x => (hf x).writes,
    fun own => (hp.announces own).bind fun x => (hf x).announces,
    hp.balances.bind fun x => (hf x).balances⟩

theorem lawful_pure (x : α) : Lawful H (pure x : Prog α) :=
  ⟨⟨guarded_pure (List.Subset.refl _)⟩, trivial, fun _ => trivial, fun _ _ h => h⟩

theorem lawful_raise (e : PyError) : Lawful H (Tx.raise e : Prog α) :=
  ⟨⟨guarded_raise e⟩, trivial, fun _ => trivial, fun _ _ h => h⟩

theorem Lawful.map (hp : Lawful H p) (g : α → β) : Lawful H (g <$> p) :=
  hp.andThen fun x => lawful_pure (g x)

theorem lawful_when (c : Prop) [Decidable c] {p : Prog Unit} (hp : Lawful H p) :
    Lawful H (Tx.when c p) := by
  unfold Tx.when
  split
  · exact hp
  · exact lawful_pure ()

theorem lawful_refuse (c : Prop) [Decidable c] (e : PyError) :
    Lawful H (Tx.refuse c e : Prog Unit) := by
  unfold Tx.refuse
  split
  · exact lawful_raise e
  · exact lawful_pure ()

theorem lawful_ofExcept (x : Except PyError α) : Lawful H (Tx.ofExcept x : Prog α) := by
  cases x with
  | ok x => exact lawful_pure x
  | error e => exact lawful_raise e

theorem lawful_require (x : Option α) (e : PyError) : Lawful H (Tx.require x e : Prog α) := by
  cases x with
  | some x => exact lawful_pure x
  | none => exact lawful_raise e

theorem lawful_glance (g : Database → α) : Lawful H (Tx.glance g : Prog α) :=
  ⟨⟨guarded_glance fun _ => List.Subset.refl _⟩, fun _ => trivial, fun _ _ => trivial,
    fun _ _ _ h => h⟩

theorem lawful_draw : Lawful H (Tx.draw : Prog Nat) :=
  ⟨⟨guarded_draw fun _ => List.Subset.refl _⟩, fun _ => trivial, fun _ _ => trivial,
    fun _ _ _ h => h⟩

theorem lawful_forEach {p : α → Prog Unit} (hp : ∀ x, Lawful H (p x)) (xs : List α) :
    Lawful H (Tx.forEach xs p) := by
  induction xs with
  | nil => exact lawful_pure ()
  | cons x rest ih => exact (hp x).andThen fun _ => ih

theorem lawful_query {g : Database → α} (hg : ∀ s t, rowLocks.AgreeOn H s t → g s = g t) :
    Lawful H (Tx.query g : Prog α) :=
  ⟨⟨guarded_query hg fun _ => List.Subset.refl _⟩, ⟨.nothing, fun _ => trivial⟩,
    fun _ _ => trivial, balances_query g⟩

theorem lawful_update {g : Database → Database} (hg : rowLocks.Respects H g) (hw : Write g)
    (hn : ∀ s, (g s).notifications = s.notifications) : Lawful H (Tx.update g : Prog Unit) := by
  refine ⟨⟨guarded_update hg (List.Subset.refl _)⟩, ⟨hw, fun _ => trivial⟩, fun _ _ => trivial,
    balances_update fun pk t h => ?_⟩
  rw [Stored, hn] at h
  exact h

theorem lawful_acquire {k : RowKey} {f : Unit → Prog β} (hf : Lawful (k :: H) (f ())) :
    Lawful H (Tx.acquire k >>= f) := by
  refine ⟨⟨?_⟩, hf.writes, hf.announces, hf.balances⟩
  refine Tx.Guarded.andThen (B := fun H' _ => H' = k :: H) (guarded_acquire rfl) ?_
  rintro _ _ rfl
  exact hf.keeps.guarded.mono fun _ _ hH =>
    List.Subset.trans (List.subset_cons_self k H) hH

/-- Everything after the lock on the auction row runs under it. -/
theorem lawful_lockedAuction {f : Auction → Prog β}
    (hf : ∀ row, Lawful (.auction a :: H) (f row)) : Lawful H (lockedAuction a >>= f) := by
  have hread : Lawful (.auction a :: H) (Tx.query (fun s => (s.dossier a).row)) :=
    lawful_query fun s t hst => congrArg Prod.fst (view_of_auction (List.mem_cons_self ..) hst)
  exact lawful_acquire (f := fun _ => Tx.query (fun s => (s.dossier a).row) >>= f)
    (hread.andThen hf)

theorem lawful_lockedDispute {f : Dispute → Prog β}
    (hf : ∀ d, Lawful (.dispute a pk :: H) (f d)) : Lawful H (lockedDispute a pk >>= f) := by
  have hread : Lawful (.dispute a pk :: H)
      (Tx.query (fun s => (s.dossier a).disputes.find? (fun x => x.pk = pk))) :=
    lawful_query fun s t hst => view_of_dispute (List.mem_cons_self ..) hst
  refine lawful_acquire (f := fun _ => Tx.query (fun s => (s.dossier a).disputes.find?
    (fun x => x.pk = pk)) >>= fun found => Tx.require found .doesNotExist >>= f) ?_
  exact hread.andThen fun found => (lawful_require found _).andThen hf

end Lawful

end MbararaAuction.Locking
