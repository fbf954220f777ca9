import MbararaAuction.Proofs.Anonymity

namespace MbararaAuction
open Queries

/-- The bidders of the bids, in the order of their first bids. -/
def firstBidders (bids : List Bid) : List UserId :=
  ((inSequence bids).map Bid.bidder).foldl withKey []

theorem mem_firstBidders {bids : List Bid} {u : UserId} :
    u ∈ firstBidders bids ↔ u ∈ bids.map Bid.bidder := by
  simp [firstBidders, mem_keys, mem_inSequence]

theorem firstBidders_nodup (bids : List Bid) : (firstBidders bids).Nodup :=
  keys_nodup List.nodup_nil

/-- A later bid gives no old bidder another place. -/
theorem firstBidders_append {bids later : List Bid}
    (h : ∀ x ∈ bids, ∀ y ∈ later, x.sequenceNo < y.sequenceNo) :
    firstBidders bids <+: firstBidders (bids ++ later) := by
  unfold firstBidders
  rw [inSequence_append h, List.map_append, List.foldl_append]
  exact keys_grow

/-- The label of the `n`th bidder, counted from zero, as long as `chr` answers. -/
def nthLabel (n : Nat) : PyString := pyString "Bidder " ++ [Fin.ofNat 0x110000 ('A'.toNat + n)]

theorem nthLabel_injective {m n : Nat} (hm : 'A'.toNat + m < 0x110000)
    (hn : 'A'.toNat + n < 0x110000) (h : nthLabel m = nthLabel n) : m = n := by
  have hlast := List.singleton_inj.mp (List.append_cancel_left h)
  rw [Fin.ext_iff, Fin.val_ofNat, Fin.val_ofNat, Nat.mod_eq_of_lt hm, Nat.mod_eq_of_lt hn] at hlast
  omega

theorem nthLabel_ne_you (n : Nat) : nthLabel n ≠ pyString "You" := by
  intro h
  have hlength := congrArg List.length h
  rw [nthLabel, List.length_append] at hlength
  simp [pyString] at hlength

section Loop
variable {users : UserId → User} {viewer : Viewer}

/-- The labels of the bidders `known` so far. -/
theorem labelFor_numbered {known : List UserId} (hknown : 'A'.toNat + known.length ≤ 0x110000)
    (u : UserId) : labelFor (numbered nthLabel known 0) u =
      if 'A'.toNat + (withKey known u).length ≤ 0x110000 then
        .ok (numbered nthLabel (withKey known u) 0, nthLabel ((withKey known u).idxOf u))
      else .error (.valueError "chr() arg not in range(0x110000)") := by
  unfold labelFor
  by_cases hu : u ∈ known
  · have hsame : withKey known u = known := if_pos hu
    rw [hsame, lookup_numbered hu, if_pos hknown, Nat.zero_add]
  · have hnew : withKey known u = known ++ [u] := if_neg hu
    have hlength : (numbered nthLabel known 0).length = known.length := by simp [numbered]
    rw [hnew, lookup_numbered_none hu, hlength, List.length_append, List.length_singleton]
    unfold chr
    by_cases hroom : 'A'.toNat + known.length < 0x110000
    · rw [dif_pos hroom, if_pos (by omega), numbered_append,
        List.idxOf_append_of_notMem hu, List.idxOf_cons_self]
      have hchar : (⟨'A'.toNat + known.length, hroom⟩ : PyChar) =
          Fin.ofNat 0x110000 ('A'.toNat + known.length) :=
        Fin.ext (Nat.mod_eq_of_lt hroom).symm
      simp only [bind, Except.bind, pure, Except.pure, hchar]
      rfl
    · rw [dif_neg hroom, if_neg (by omega)]
      rfl

/-- What the history says of a bid, where the bidders of all bids come in the order `order`. -/
def entryFor (users : UserId → User) (viewer : Viewer) (order : List UserId) (b : Bid) : BidEntry :=
  { sequenceNo := b.sequenceNo, amount := b.amount, createdAt := b.createdAt
    label :=
      if viewer.isOfficerOrAdmin then pyString (users b.bidder).username
      else if viewer.pk = some b.bidder then pyString "You"
      else nthLabel (order.idxOf b.bidder)
    status := b.status, isMine := viewer.pk = some b.bidder }

theorem historyLoop_entries (bids : List Bid) (known : List UserId) (history : List BidEntry)
    (hknown : 'A'.toNat + known.length ≤ 0x110000) :
    historyLoop users viewer bids (numbered nthLabel known 0) history =
      if 'A'.toNat + ((bids.map Bid.bidder).foldl withKey known).length ≤ 0x110000 then
        .ok (history ++ bids.map (entryFor users viewer ((bids.map Bid.bidder).foldl withKey known)))
      else .error (.valueError "chr() arg not in range(0x110000)") := by
  induction bids generalizing known history with
  | nil => rw [historyLoop, List.map_nil, List.foldl_nil, if_pos hknown, List.map_nil, List.append_nil]
  | cons bid rest ih =>
    have hlonger : (withKey known bid.bidder).length ≤
        ((rest.map Bid.bidder).foldl withKey (withKey known bid.bidder)).length :=
      keys_grow.length_le
    rw [historyLoop, labelFor_numbered hknown, List.map_cons, List.foldl_cons]
    by_cases hroom : 'A'.toNat + (withKey known bid.bidder).length ≤ 0x110000
    · rw [if_pos hroom]
      have hplace : ((rest.map Bid.bidder).foldl withKey (withKey known bid.bidder)).idxOf bid.bidder =
          (withKey known bid.bidder).idxOf bid.bidder :=
        (keys_grow.idxOf_eq_of_mem (mem_withKey.mpr (.inr rfl))).symm
      simp only [bind, Except.bind, ih _ _ hroom]
      split
      · simp only [List.map_cons, List.append_assoc, List.singleton_append, entryFor, hplace,
          decide_eq_true_eq]
      · rfl
    · rw [if_neg hroom, if_neg (by omega)]
      rfl

end Loop

section History
variable {s : Database} {a : AuctionId} {viewer : Viewer}

/-- The history of every bid, as long as there are letters enough for `chr`. -/
theorem getBidHistory_entries (s : Database) (a : AuctionId) (viewer : Viewer) :
    getBidHistory s a viewer =
      if 'A'.toNat + (firstBidders (s.dossier a).bids).length ≤ 0x110000 then
        .ok ((inSequence (s.dossier a).bids).map
          (entryFor s.users viewer (firstBidders (s.dossier a).bids)))
      else .error (.valueError "chr() arg not in range(0x110000)") :=
  historyLoop_entries _ [] [] (by decide)

theorem getBidHistory_ok {history : List BidEntry} : getBidHistory s a viewer = .ok history ↔
    'A'.toNat + (firstBidders (s.dossier a).bids).length ≤ 0x110000 ∧
      history = (inSequence (s.dossier a).bids).map
        (entryFor s.users viewer (firstBidders (s.dossier a).bids)) := by
  rw [getBidHistory_entries]
  split
  · next hroom => rw [Except.ok.injEq, eq_comm, and_iff_right hroom]
  · next hroom => exact ⟨nofun, fun h => absurd h.1 hroom⟩

/-- `Bidder` with a name in the letters of the alphabet. -/
def Lettered (label : PyString) : Prop :=
  ∃ letters : PyString, letters ≠ [] ∧ (∀ c ∈ letters, 'A'.toNat ≤ c.val ∧ c.val ≤ 'Z'.toNat) ∧
    label = pyString "Bidder " ++ letters

theorem nthLabel_lettered {n : Nat} (hn : 'A'.toNat + n < 0x110000) : Lettered (nthLabel n) ↔ n < 26 := by
  have hval : (Fin.ofNat 0x110000 ('A'.toNat + n)).val = 'A'.toNat + n := Nat.mod_eq_of_lt hn
  have hfirst : 'A'.toNat = 65 := rfl
  have hlast : 'Z'.toNat = 90 := rfl
  constructor
  · rintro ⟨letters, _, hletters, h⟩
    rw [← List.append_cancel_left h] at hletters
    have hletter := (hletters _ List.mem_cons_self).2
    omega
  · intro h
    refine ⟨_, List.cons_ne_nil _ [], fun c hc => ?_, rfl⟩
    rw [List.mem_singleton.mp hc]
    omega

/-- The labels of the history are well formed, tell the other bidders apart, and stay
as they are when later bids come in. -/
structure Faithful (s : Database) (a : AuctionId) (viewer : Viewer) (history : List BidEntry) :
    Prop where
  entries : history.map BidEntry.sequenceNo =
    (inSequence (s.dossier a).bids).map Bid.sequenceNo
  lettered : ∀ e ∈ history, e.label = pyString "You" ∨ Lettered e.label
  apart : ∀ x ∈ (inSequence (s.dossier a).bids).zip history,
    ∀ y ∈ (inSequence (s.dossier a).bids).zip history,
      viewer.pk ≠ some x.1.bidder → viewer.pk ≠ some y.1.bidder →
        (x.2.label = y.2.label ↔ x.1.bidder = y.1.bidder)
  stable : ∀ (s' : Database) (later : List Bid) (history' : List BidEntry),
    (s'.dossier a).bids = (s.dossier a).bids ++ later →
    (∀ x ∈ (s.dossier a).bids, ∀ y ∈ later, x.sequenceNo < y.sequenceNo) →
    getBidHistory s' a viewer = .ok history' →
      history.map BidEntry.label <+: history'.map BidEntry.label

/-- The entries of a bidder depend on the place of the bidder alone. -/
theorem entryFor_label (hviewer : viewer.isOfficerOrAdmin = false) (users : UserId → User)
    (order : List UserId) (b : Bid) : (entryFor users viewer order b).label =
      if viewer.pk = some b.bidder then pyString "You" else nthLabel (order.idxOf b.bidder) := by
  simp only [entryFor, hviewer, Bool.false_eq_true, if_false]

/-- Nobody but the viewer comes after the first 26 bidders. -/
def Lettering (viewer : Viewer) (bids : List Bid) : Prop :=
  ∀ u ∈ (firstBidders bids).drop 26, viewer.pk = some u

theorem Lettering.room {bids : List Bid} (h : Lettering viewer bids) :
    (firstBidders bids).length ≤ 27 := by
  have hone : ((firstBidders bids).drop 26).length ≤ 1 := by
    have hdistinct := (firstBidders_nodup bids).sublist (List.drop_sublist 26 _)
    by_contra hmore
    have hsame : ((firstBidders bids).drop 26)[0] = ((firstBidders bids).drop 26)[1] := by
      have hfirst := h _ (List.getElem_mem (by omega : 0 < ((firstBidders bids).drop 26).length))
      have hsecond := h _ (List.getElem_mem (by omega : 1 < ((firstBidders bids).drop 26).length))
      exact Option.some.inj (hfirst.symm.trans hsecond)
    have hplaces := (hdistinct.getElem_inj_iff).mp hsame
    omega
  rw [List.length_drop] at hone
  omega

theorem faithful_of_lettering (hviewer : viewer.isOfficerOrAdmin = false)
    (h : Lettering viewer (s.dossier a).bids) :
    ∃ history, getBidHistory s a viewer = .ok history ∧ Faithful s a viewer history := by
  have hroom := h.room
  have hfirst : 'A'.toNat = 65 := rfl
  have hplace : ∀ b ∈ (s.dossier a).bids,
      'A'.toNat + (firstBidders (s.dossier a).bids).idxOf b.bidder < 0x110000 := by
    intro b hb
    have := List.idxOf_lt_length_of_mem (mem_firstBidders.mpr (List.mem_map_of_mem (f := Bid.bidder) hb))
    omega
  refine ⟨_, getBidHistory_ok.mpr ⟨by omega, rfl⟩, ?_, ?_, ?_, ?_⟩
  · rw [List.map_map]
    rfl
  · intro e he
    obtain ⟨b, hb, rfl⟩ := List.mem_map.mp he
    rw [mem_inSequence] at hb
    rw [entryFor_label hviewer]
    split
    · exact .inl rfl
    · next hother =>
      right
      rw [nthLabel_lettered (hplace b hb)]
      by_contra hlate
      apply hother
      apply h
      rw [mem_drop_iff (firstBidders_nodup _), mem_firstBidders]
      exact ⟨List.mem_map_of_mem hb, not_lt.mp hlate⟩
  · intro x hx y hy hxother hyother
    rw [← List.map_prod_left_eq_zip] at hx hy
    obtain ⟨b, hb, rfl⟩ := List.mem_map.mp hx
    obtain ⟨c, hc, rfl⟩ := List.mem_map.mp hy
    rw [mem_inSequence] at hb hc
    rw [entryFor_label hviewer, entryFor_label hviewer, if_neg hxother, if_neg hyother]
    constructor
    · intro hlabel
      have hsame := nthLabel_injective (hplace b hb) (hplace c hc) hlabel
      exact (List.idxOf_inj (mem_firstBidders.mpr (List.mem_map_of_mem hb))).mp hsame
    · intro hbidder
      rw [hbidder]
  · intro s' later history' hbids hlater hhistory
    obtain ⟨_, rfl⟩ := getBidHistory_ok.mp hhistory
    have hgrown := firstBidders_append hlater
    rw [hbids, inSequence_append hlater, List.map_append, List.map_append, List.map_map, List.map_map]
    have hsame : (inSequence (s.dossier a).bids).map (BidEntry.label ∘
          entryFor s.users viewer (firstBidders (s.dossier a).bids)) =
        (inSequence (s.dossier a).bids).map (BidEntry.label ∘
          entryFor s'.users viewer (firstBidders ((s.dossier a).bids ++ later))) := by
      refine List.map_congr_left fun b hb => ?_
      rw [mem_inSequence] at hb
      simp only [Function.comp, entryFor_label hviewer]
      rw [hgrown.idxOf_eq_of_mem (mem_firstBidders.mpr (List.mem_map_of_mem hb))]
    rw [hsame]
    exact List.prefix_append _ _

theorem lettering_of_faithful (hviewer : viewer.isOfficerOrAdmin = false) {history : List BidEntry}
    (hhistory : getBidHistory s a viewer = .ok history) (h : Faithful s a viewer history) :
    Lettering viewer (s.dossier a).bids := by
  intro u hu
  obtain ⟨hroom, rfl⟩ := getBidHistory_ok.mp hhistory
  rw [mem_drop_iff (firstBidders_nodup _)] at hu
  obtain ⟨hmem, hlate⟩ := hu
  obtain ⟨b, hb, rfl⟩ := List.mem_map.mp (mem_firstBidders.mp hmem)
  by_contra hother
  have hlettered := h.lettered _ (List.mem_map_of_mem (mem_inSequence.mpr hb))
  rw [entryFor_label hviewer, if_neg hother] at hlettered
  have hplace := List.idxOf_lt_length_of_mem hmem
  have hsmall := (nthLabel_lettered (by omega)).mp (hlettered.resolve_left (nthLabel_ne_you _))
  omega

end History

/-- To a viewer without staff rights the bid history is shown under faithful labels exactly
if nobody but the viewer comes after the first 26 bidders: the 27th is `Bidder [`. -/
theorem bid_labels_iff {s : Database} {a : AuctionId} {viewer : Viewer}
    (hviewer : viewer.isOfficerOrAdmin = false) :
    (∃ history, getBidHistory s a viewer = .ok history ∧ Faithful s a viewer history) ↔
      Lettering viewer (s.dossier a).bids := by
  constructor
  · rintro ⟨history, hhistory, h⟩
    exact lettering_of_faithful hviewer hhistory h
  · exact faithful_of_lettering hviewer

/-- Three bidders, seen by one of them. -/
theorem bid_labels_sample : ∃ history,
    getBidHistory (sampleBids [5, 2, 5, 3]) 0 (.user 2 ⟨"alice", .bidder, false, true⟩) = .ok history ∧
      Faithful (sampleBids [5, 2, 5, 3]) 0 (.user 2 ⟨"alice", .bidder, false, true⟩) history :=
  (bid_labels_iff rfl).mpr (by decide +kernel : ∀ u ∈ (firstBidders _).drop 26, _)

/-- The letters run out with the 27th bidder. -/
theorem letters_run_out : ¬ ∃ history,
    getBidHistory (sampleBids (List.range 27)) 0 .anonymous = .ok history ∧
      Faithful (sampleBids (List.range 27)) 0 .anonymous history := by
  rintro ⟨history, hhistory, h⟩
  have hviewer := lettering_of_faithful rfl hhistory h 26 (by decide +kernel)
  cases hviewer

example : ((getBidHistory (sampleBids (List.range 27)) 0 .anonymous).map (List.map BidEntry.label)).toOption.bind
    List.getLast? = some (pyString "Bidder [") := by decide +kernel

end MbararaAuction
