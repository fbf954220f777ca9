import MbararaAuction.Machine.BidBook

namespace MbararaAuction
open Queries

/-- What a bid says, who made it and when. -/
def Bid.offer (b : Bid) : Nat × UserId × Money × Nat × Time :=
  (b.pk, b.bidder, b.amount, b.sequenceNo, b.createdAt)

/-- A bid at a later moment: the same offer, and never valid again. -/
structure Bid.Later (x y : Bid) : Prop where
  offer : y.offer = x.offer
  struck : x.status = .invalidated → y.status = .invalidated

/-- A bid at a later moment, whose record was written once. -/
structure Bid.Final (x y : Bid) : Prop where
  offer : y.offer = x.offer
  struck : x.status = .invalidated → y = x

/-- A bid about to be struck out still stands. -/
def StillStands (act : Action) (d : Dossier) : Prop :=
  ∀ x ∈ d.bids, act = .invalidate x.pk → x.status = .accepted

instance (act : Action) (d : Dossier) : Decidable (StillStands act d) :=
  inferInstanceAs (Decidable (∀ x ∈ d.bids, act = .invalidate x.pk → x.status = .accepted))

section Records
variable {view : View} {act : Action} {d d' : Dossier} {x y z : Bid}

theorem Bid.Later.refl (x : Bid) : x.Later x := ⟨rfl, id⟩

theorem Bid.Later.trans (h : x.Later y) (h' : y.Later z) : x.Later z :=
  ⟨h'.offer.trans h.offer, fun hs => h'.struck (h.struck hs)⟩

theorem Bid.Final.refl (x : Bid) : x.Final x := ⟨rfl, fun _ => rfl⟩

theorem Bid.Final.trans (h : x.Final y) (h' : y.Final z) : x.Final z := by
  refine ⟨h'.offer.trans h.offer, fun hs => ?_⟩
  have hy := h.struck hs
  subst hy
  exact h'.struck hs

theorem invalidatedWith_pk (actor : UserId) (reason : String) (t : Time) (b : Bid) :
    (b.invalidatedWith actor reason t).pk = b.pk := rfl

theorem later_invalidated (actor : UserId) (reason : String) (t : Time) (b : Bid) :
    b.Later (b.invalidatedWith actor reason t) := ⟨rfl, fun _ => rfl⟩

/-- Striking out a bid that stands writes its record for the first time. -/
theorem final_invalidated {b : Bid} (hs : b.status = .accepted) (actor : UserId) (reason : String)
    (t : Time) : b.Final (b.invalidatedWith actor reason t) := by
  refine ⟨rfl, fun hstruck => ?_⟩
  rw [hs] at hstruck
  cases hstruck

/-- Every move carries the bids along, if its invalidation does. -/
theorem Move.carried {R : Bid → Bid → Prop} (hm : Move view act d d') (hbook : BidBook d)
    (hR : ∀ x, R x x) (hstrike : ∀ pk actor reason t, act = .invalidate pk →
      ∀ x ∈ d.bids, x.pk = pk → R x (x.invalidatedWith actor reason t)) :
    Carried Bid.pk R d.bids d'.bids := by
  by_cases hbid : act = .bid
  · subst hbid
    cases hm with
    | bid => exact carried_append hbook.keys hR _
  by_cases hinvalidate : ∃ pk, act = .invalidate pk
  · obtain ⟨pk, rfl⟩ := hinvalidate
    cases hm with
    | @invalidate _ _ actor reason t =>
      exact carried_updateKey hbook.keys hR (invalidatedWith_pk actor reason t)
        (hstrike pk actor reason t rfl)
  · rw [(hm.same_bids hbid fun pk he => hinvalidate ⟨pk, he⟩).1]
    exact .refl hbook.keys hR

/-- No move changes an offer, or makes a bid valid again. -/
theorem Move.later_bids (hm : Move view act d d') (hbook : BidBook d) :
    Carried Bid.pk Bid.Later d.bids d'.bids :=
  hm.carried hbook Bid.Later.refl fun _ actor reason t _ x _ _ => later_invalidated actor reason t x

/-- A move that strikes out only what stands leaves every record as it was written. -/
theorem Move.final_bids (hm : Move view act d d') (hbook : BidBook d) (hstill : StillStands act d) :
    Carried Bid.pk Bid.Final d.bids d'.bids := by
  apply hm.carried hbook Bid.Final.refl
  rintro pk actor reason t rfl x hx rfl
  exact final_invalidated (hstill x hx rfl) actor reason t

end Records

end MbararaAuction
