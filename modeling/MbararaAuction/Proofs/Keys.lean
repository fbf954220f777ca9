import MbararaAuction.Proofs.Bids
import MbararaAuction.Transactions.Sequences

namespace MbararaAuction
open Transactions Queries Locking

seal Tx.Exec

/-- The write adds no bids but those with keys below `n`. -/
def DrawnBelow (n : Nat) (f : Database → Database) : Prop :=
  ∀ s a, ∀ b ∈ ((f s).dossier a).bids, b.pk < n ∨ b.pk ∈ (s.dossier a).bids.map Bid.pk

theorem drawnBelow_cumulative : Cumulative DrawnBelow where
  nothing n s a b hb := .inr (List.mem_map_of_mem hb)
  comp := by
    intro n f g hf hg s a b hb
    rcases hg (f s) a b hb with hlow | hold
    · exact .inl hlow
    · obtain ⟨x, hx, hpk⟩ := List.mem_map.mp hold
      rw [← hpk]
      exact hf s a x hx
  later := by
    intro n m f hnm hf s a b hb
    rcases hf s a b hb with hlow | hold
    · exact .inl (by omega)
    · exact .inr hold

section Bodies
variable {n : Nat} {a : AuctionId}

/-- Other tables hold no bids. -/
theorem drawnBelow_of_same {f : Database → Database} (hf : ∀ s, (f s).dossier = s.dossier) :
    DrawnBelow n f := by
  intro s a b hb
  rw [hf s] at hb
  exact .inr (List.mem_map_of_mem hb)

theorem drawnBelow_amend {f : Dossier → Dossier}
    (hf : ∀ d, ∀ b ∈ (f d).bids, b.pk < n ∨ b.pk ∈ d.bids.map Bid.pk) :
    DrawnBelow n (fun s => s.amend a f) := by
  intro s other b hb
  by_cases ho : other = a
  · subst ho
    simp only [amend_self] at hb
    exact hf _ b hb
  · rw [amend_other _ _ _ ho] at hb
    exact .inr (List.mem_map_of_mem hb)

theorem numbered_record (actor : Option UserId) (action : AuditAction) (obj : ObjRef)
    (reason : String) : (record actor action obj reason).Numbered DrawnBelow n :=
  numbered_update (drawnBelow_of_same fun _ => rfl)

theorem numbered_saveAuction (f : Auction → Auction) :
    (saveAuction a f).Numbered DrawnBelow n := by
  apply numbered_update
  exact drawnBelow_amend fun d b hb => .inr (List.mem_map_of_mem hb)

theorem numbered_notify (notice : Notice) : (notify notice).Numbered DrawnBelow n := by
  unfold notify
  split
  · trivial
  · apply numbered_draw
    intro pk _
    exact ⟨drawnBelow_of_same fun _ => rfl, fun _ => trivial⟩

theorem numbered_notifyOutbid (auction : Auction) (bid : Bid) (amount : String) :
    (notifyOutbid a auction bid amount).Numbered DrawnBelow n := by
  apply (numbered_query drawnBelow_cumulative _).bind
  intro bids m _
  split
  · trivial
  split
  · trivial
  · exact numbered_notify _

/-- A new key is a number drawn. -/
theorem numbered_nextPk_bind {β : Type} {pks : Dossier → List Nat} {f : Nat → Prog β}
    (hf : ∀ pk m, n ≤ m → pk < m → (f pk).Numbered DrawnBelow m) :
    (nextPk a pks >>= f).Numbered DrawnBelow n := by
  apply numbered_draw
  intro pk hpk
  refine ⟨drawnBelow_cumulative.nothing _, fun s => ?_⟩
  change (Tx.bind (Tx.refuse _ _ >>= fun _ => pure pk) f).Numbered DrawnBelow (pk + 1)
  unfold Tx.refuse
  split
  · trivial
  · exact hf pk (pk + 1) (by omega) (Nat.lt_succ_self pk)

theorem numbered_createBid (bidder : UserId) (amount : Money) (sequenceNo : Nat) :
    (createBid a bidder amount sequenceNo).Numbered DrawnBelow n := by
  apply numbered_nextPk_bind
  intro pk m _ hpk t
  apply (numbered_query drawnBelow_cumulative _).bind
  intro taken k hk
  apply (numbered_refuse ..).bind
  intro _ i hi
  apply (numbered_refuse ..).bind
  intro _ j hj
  refine ⟨drawnBelow_amend fun d b hb => ?_, fun _ => trivial⟩
  rcases List.mem_append.mp hb with hb | hb
  · exact .inr (List.mem_map_of_mem hb)
  · rw [List.mem_singleton.mp hb]
    exact .inl (by simp only; omega)

theorem numbered_placeBid (bidderUser : UserId) (amount : Number) :
    (placeBid a bidderUser amount).Numbered DrawnBelow n := by
  apply (numbered_ofExcept _).bind
  intro value _ _
  apply (numbered_query drawnBelow_cumulative _).bind
  intro locked _ _ t
  apply (numbered_refuse ..).bind
  intro _ _ _ profile user
  apply (numbered_refuse ..).bind
  intro _ _ _
  apply (numbered_refuse ..).bind
  intro _ _ _
  apply (numbered_refuse ..).bind
  intro _ _ _
  apply (numbered_refuse ..).bind
  intro _ _ _
  apply (numbered_query drawnBelow_cumulative _).bind
  intro bids _ _
  apply (numbered_createBid _ _ _).bind
  intro bid _ _
  apply (numbered_when (numbered_record ..)).bind
  intro _ _ _
  apply (numbered_saveAuction _).bind
  intro _ _ _
  apply (numbered_record ..).bind
  intro _ _ _
  apply (numbered_notifyOutbid ..).bind
  intro _ _ _
  trivial

end Bodies

/-- Only a bid adds a key. -/
theorem Move.same_keys {view : View} {act : Action} {d d' : Dossier} (hm : Move view act d d')
    (hbid : act ≠ .bid) : d'.bids.map Bid.pk = d.bids.map Bid.pk := by
  by_cases hinvalidate : ∃ pk, act = .invalidate pk
  · obtain ⟨pk, rfl⟩ := hinvalidate
    cases hm with
    | invalidate => exact map_updateKey Bid.pk (by exact fun _ => rfl)
  · rw [(hm.same_bids hbid fun pk he => hinvalidate ⟨pk, he⟩).1]

theorem bid_service {l : ServiceTx} {a : AuctionId} (ht : l.target = some a) (hact : l.action = .bid) :
    ∃ bidderUser amount, l = .placeBid a bidderUser amount := by
  cases l <;> cases hact
  cases ht
  exact ⟨_, _, rfl⟩

section Runs
variable {db : Database} {before : List (Site × SiteEvent)} {c : Site} {a : AuctionId}

/-- The key of every bid was drawn from the sequence. -/
theorem keys_drawn (hrun : SiteRun db before c) (hempty : (db.dossier a).bids = []) :
    ∀ b ∈ (c.dossier a).bids, b.pk < c.world.seq := by
  refine hrun.history (I := fun _ c => ∀ b ∈ (c.dossier a).bids, b.pk < c.world.seq)
    (A := fun _ _ => True) ?_ ?_ fun _ _ => trivial
  · intro b hb
    change b ∈ (db.dossier a).bids at hb
    rw [hempty] at hb
    cases hb
  intro before c ev c' run ih _ hs b hb
  have hdrafted := run.drafted (W := DrawnBelow) drawnBelow_cumulative
  have hseq := (drafted_step drawnBelow_cumulative hdrafted hs).2
  have hold : b.pk ∈ (c.dossier a).bids.map Bid.pk → b.pk < c'.world.seq := by
    intro hmem
    obtain ⟨x, hx, hpk⟩ := List.mem_map.mp hmem
    rw [← hpk]
    exact Nat.lt_of_lt_of_le (ih x hx) hseq
  rcases step_dossier run hs a with ⟨hsame, _⟩ | ⟨call, l, hc, ht, hm⟩
  · rw [hsame] at hb
    exact hold (List.mem_map_of_mem hb)
  by_cases hact : l.action = .bid
  · obtain ⟨bidderUser, amount, rfl⟩ := bid_service ht hact
    have hl : (engine.prog (.placeBid a bidderUser amount)).Numbered DrawnBelow 0 :=
      (numbered_placeBid bidderUser amount).bind fun _ _ _ => trivial
    obtain ⟨f, hf, hdb⟩ := hdrafted.commit drawnBelow_cumulative hl hs hc
    rw [Config.dossier, hdb] at hb
    rcases hf _ a b hb with hlow | hmem
    · exact Nat.lt_of_lt_of_le hlow hseq
    · exact hold hmem
  · apply hold
    rw [← hm.same_keys hact]
    exact List.mem_map_of_mem hb

end Runs

end MbararaAuction
