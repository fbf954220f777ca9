import Mathlib.Data.Set.Function
import MbararaAuction.Machine.BidBook
import MbararaAuction.Model.Views

namespace MbararaAuction
open Queries

/-- The bid of another bidder. -/
@[simps] def Bid.renamed (ρ : UserId → UserId) (b : Bid) : Bid := { b with bidder := ρ b.bidder }

section History
variable {ρ : UserId → UserId} {users users' : UserId → User} {viewer : Viewer} {labels : Labels}

/-- The labels under new names. -/
def Labels.renamed (ρ : UserId → UserId) (labels : Labels) : Labels := labels.map (Prod.map ρ id)

/-- A new name gets the label that the old one got. -/
theorem labelFor_renamed {u : UserId} (hinj : ∀ x ∈ labels, ρ x.1 = ρ u → x.1 = u) :
    labelFor (labels.renamed ρ) (ρ u) =
      (labelFor labels u).map (fun given => (given.1.renamed ρ, given.2)) := by
  unfold labelFor Labels.renamed
  rw [lookup_renamed hinj, List.length_map]
  cases labels.lookup u with
  | some label => rfl
  | none => cases chr ('A'.toNat + labels.length) <;> simp [Except.map, bind, Except.bind, pure, Except.pure]

/-- Only the bidder of the bid may be new among the labelled bidders. -/
theorem labelFor_keys {u : UserId} {labels' : Labels} {label : PyString}
    (h : labelFor labels u = .ok (labels', label)) : ∀ x ∈ labels', x ∈ labels ∨ x.1 = u := by
  unfold labelFor at h
  split at h
  · cases h
    exact fun x hx => .inl hx
  · cases hc : chr ('A'.toNat + labels.length) with
    | error e =>
      rw [hc] at h
      cases h
    | ok letter =>
      rw [hc] at h
      cases h
      intro x hx
      rcases List.mem_append.mp hx with hx | hx
      · exact .inl hx
      · rw [List.mem_singleton.mp hx]
        exact .inr rfl

/-- The loop carries the renaming along in its labels. -/
theorem historyLoop_renamed (hviewer : viewer.isOfficerOrAdmin = false) {known : Set UserId}
    (hinj : Set.InjOn ρ known) (hfix : ∀ u, viewer.pk = some u → u ∈ known ∧ ρ u = u)
    (bids : List Bid) (history : List BidEntry) (hbids : ∀ b ∈ bids, b.bidder ∈ known)
    (hlabels : ∀ x ∈ labels, x.1 ∈ known) :
    historyLoop users' viewer (bids.map (Bid.renamed ρ)) (labels.renamed ρ) history =
      historyLoop users viewer bids labels history := by
  induction bids generalizing labels history with
  | nil => rfl
  | cons bid rest ih =>
    obtain ⟨hbid, hrest⟩ := List.forall_mem_cons.mp hbids
    have hmine : viewer.pk = some (ρ bid.bidder) ↔ viewer.pk = some bid.bidder := by
      constructor
      · intro h
        obtain ⟨hknown, hsame⟩ := hfix _ h
        rw [hinj hknown hbid hsame] at h
        exact h
      · intro h
        rw [(hfix _ h).2]
        exact h
    have hkeep : ∀ x ∈ labels, ρ x.1 = ρ bid.bidder → x.1 = bid.bidder :=
      fun x hx he => hinj (hlabels x hx) hbid he
    have hlabel := labelFor_renamed hkeep
    simp only [List.map_cons, historyLoop, Bid.renamed_bidder, Bid.renamed_sequenceNo,
      Bid.renamed_amount, Bid.renamed_createdAt, Bid.renamed_status, hlabel, hviewer, hmine]
    cases hgiven : labelFor labels bid.bidder with
    | error e => rfl
    | ok given =>
      apply ih _ hrest
      intro x hx
      rcases labelFor_keys hgiven x hx with hx | hx
      · exact hlabels x hx
      · rw [hx]
        exact hbid

end History

/-- What a viewer without privilege sees of the bids depends on the other bidders only
through which bids share a bidder: other bidders under other names, as long as they
stay apart from one another and from the viewer, give the same history. -/
theorem bid_history_anonymous {s s' : Database} {a : AuctionId} {viewer : Viewer}
    {ρ : UserId → UserId} (hviewer : viewer.isOfficerOrAdmin = false)
    (hfix : ∀ u, viewer.pk = some u → ρ u = u)
    (hinj : Set.InjOn ρ {u | viewer.pk = some u ∨ u ∈ (s.dossier a).bids.map Bid.bidder})
    (hbids : (s'.dossier a).bids = (s.dossier a).bids.map (.renamed ρ)) :
    getBidHistory s' a viewer = getBidHistory s a viewer := by
  have hsorted : inSequence (s'.dossier a).bids =
      (inSequence (s.dossier a).bids).map (Bid.renamed ρ) := by
    rw [hbids]
    refine (List.map_insertionSort (fun x y : Bid => x.sequenceNo ≤ y.sequenceNo)
      (fun x y : Bid => x.sequenceNo ≤ y.sequenceNo) _ _ fun _ _ _ _ => ?_).symm
    exact Iff.rfl
  unfold getBidHistory
  rw [hsorted]
  have hnone : ∀ x ∈ ([] : Labels), viewer.pk = some x.1 ∨
      x.1 ∈ (s.dossier a).bids.map Bid.bidder := fun _ hx => by cases hx
  refine historyLoop_renamed hviewer hinj (fun u hu => ⟨.inl hu, hfix u hu⟩) _ [] (fun b hb => ?_)
    hnone
  right
  exact List.mem_map_of_mem ((List.mem_insertionSort _).mp hb)

/-- The bids of the given bidders on the sample listing, in their order. -/
def sampleBids (bidders : List UserId) : Database :=
  sampleDatabase.amend 0 fun d => { d with bids := bidders.zipIdx.map fun (bidder, n) =>
    { pk := n, bidder := bidder, amount := 100000 * (n + 1), sequenceNo := n + 1,
      status := .accepted, invalidatedReason := "", invalidatedBy := none, invalidatedAt := none,
      createdAt := minutes n } }

/-- Three bidders, seen by one of them. -/
theorem bid_history_anonymous_sample :
    getBidHistory (sampleBids [5, 2, 5, 3]) 0 (.user 2 ⟨"alice", .bidder, false, true⟩) =
      getBidHistory (sampleBids [3, 2, 3, 4]) 0 (.user 2 ⟨"alice", .bidder, false, true⟩) := by
  refine bid_history_anonymous (ρ := fun u => if u = 3 then 5 else if u = 4 then 3 else u) rfl ?_ ?_ rfl
  · intro u hu
    cases hu
    rfl
  · have hknown : ∀ u, some 2 = some u ∨ u ∈ [3, 2, 3, 4] → u = 2 ∨ u = 3 ∨ u = 4 := by
      intro u
      simp only [Option.some.injEq, List.mem_cons, List.not_mem_nil, or_false]
      omega
    intro u hu v hv huv
    rcases hknown u hu with rfl | rfl | rfl <;> rcases hknown v hv with rfl | rfl | rfl <;>
      first | rfl | cases huv

end MbararaAuction
