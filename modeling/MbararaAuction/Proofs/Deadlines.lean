import MbararaAuction.Machine.Schedule
import MbararaAuction.Proofs.Keys
import MbararaAuction.Proofs.Windows
import MbararaAuction.Proofs.Effects
import MbararaAuction.Transactions.Served

namespace MbararaAuction
open Transactions

seal Tx.Exec

/-- A transaction that was committed, with the rows before and after it. -/
abbrev Commit := ServiceTx × Database × Database

/-- The end that a commit gives to the live auction `a`: a bid in an auction with an
anti-sniping window asks for that window after it, a new schedule for its own end. -/
def deadline (a : AuctionId) : Commit → Option Time
  | (.placeBid b _ _, s, _) =>
    if b = a ∧ (s.dossier a).row.extensionMinutes ≠ 0 then
      some (s.clock + minutes (s.dossier a).row.extensionMinutes)
    else none
  | (.reschedule b _ _ _ endTime, _, _) => if b = a then endTime else none
  | _ => none

/-- The auction `a` is live after every commit. -/
def StaysLive (a : AuctionId) (log : List Commit) : Prop :=
  ∀ x ∈ log, (x.2.2.dossier a).row.status = .live

section Commits
variable {s s' : Database} {a : AuctionId} {l : ServiceTx} {r : Value}

/-- A live auction is only ever given a later end. -/
theorem reschedule_live {actor : UserId} {reason : String} {startTime endTime : Option Time}
    {row : Auction} (h : (reschedule a actor reason startTime endTime).Exec Exact s (.ok row) s')
    (hlive : (s.dossier a).row.status = .live) :
    ∃ e, endTime = some e ∧ (s.dossier a).row.endTime < e ∧ (s'.dossier a).row.endTime = e := by
  obtain ⟨_, _, hwrites⟩ := reschedule_writes h
  simp only [reschedule, exec_ofExcept_bind, exec_lockedAuction_bind, exec_refuse_bind,
    exec_now_bind, exists_exact, hlive, reduceCtorEq, false_and, and_false, false_or,
    exists_false, true_and] at h
  obtain ⟨_, _, _, hgiven, hstart, _, _, _, hlater, _⟩ := h
  rw [hwrites.became.here]
  cases endTime with
  | none =>
    cases startTime with
    | none => exact absurd ⟨rfl, rfl⟩ hgiven
    | some t => exact absurd ⟨by simp, by simp⟩ hstart
  | some e =>
    simp only [ne_eq, reduceCtorEq, not_false_eq_true, true_and, Option.getD_some, not_le] at hlater
    exact ⟨e, rfl, hlater, rfl⟩

/-- What an accepted bid does to the end of its auction. -/
theorem placeBid_end {bidderUser : UserId} {amount : Number} {bid : Bid}
    (h : (placeBid a bidderUser amount).Exec Exact s (.ok bid) s') :
    (s'.dossier a).row.endTime = extendedEnd (s.dossier a).row s.clock := by
  obtain ⟨_, _, rfl, _, _, _, _, _, _, hwrites⟩ := placeBid_seen h
  rw [hwrites.became.here]
  rfl

/-- The window after a bid, or the end as it was, whichever is later. -/
theorem extendedEnd_max (row : Auction) (t : Time) (hwindow : row.extensionMinutes ≠ 0) :
    extendedEnd row t = max row.endTime (t + minutes row.extensionMinutes) := by
  unfold extendedEnd
  dsimp only
  split
  · lia
  · next hout =>
    rw [not_and] at hout
    have hlate := hout hwindow
    lia

/-- Other commits give no end. -/
theorem deadline_none (h : l.target ≠ some a ∨ l.action ≠ .bid ∧ l.action ≠ .reschedule) :
    deadline a (l, s, s') = none := by
  cases l with
  | placeBid b bidderUser amount =>
    rcases h with hne | ⟨hbid, _⟩
    · exact if_neg fun hb => hne (congrArg some hb.1)
    · exact absurd rfl hbid
  | reschedule b actor reason startTime endTime =>
    rcases h with hne | ⟨_, hplan⟩
    · exact if_neg fun hb => hne (congrArg some hb)
    · exact absurd rfl hplan
  | _ => rfl

/-- One commit while the auction is live. -/
theorem live_end (hx : (engine.prog l).Exec Exact s (.ok r) s')
    (hlive : (s.dossier a).row.status = .live) :
    (s'.dossier a).row.endTime =
      (deadline a (l, s, s')).toList.foldl max (s.dossier a).row.endTime := by
  rcases service_dossier (fun b => alone_admits b s.clock) hx a with ⟨hne, hsame⟩ | ⟨ht, hm⟩
  · rw [deadline_none (.inl hne), hsame]
    rfl
  by_cases hbid : l.action = .bid
  · obtain ⟨bidderUser, amount, rfl⟩ := bid_service ht hbid
    obtain ⟨bid, hplaced⟩ := exec_map_ok hx
    rw [placeBid_end hplaced]
    by_cases hwindow : (s.dossier a).row.extensionMinutes = 0
    · simp [deadline, hwindow, extendedEnd]
    · rw [extendedEnd_max _ _ hwindow]
      simp [deadline, hwindow]
  by_cases hplan : l.action = .reschedule
  · cases l <;> cases hplan
    cases ht
    obtain ⟨row, hplanned⟩ := exec_map_ok hx
    obtain ⟨e, rfl, hlater, hend⟩ := reschedule_live hplanned hlive
    rw [hend]
    simp [deadline, hlater.le]
  · rw [deadline_none (.inr ⟨hbid, hplan⟩), hm.end_kept hbid hplan]
    rfl

/-- After an accepted bid at least the window remains. -/
def KeepsWindow (a : AuctionId) : Commit → Prop
  | (.placeBid b _ _, s, s') =>
    b = a → s.clock + minutes (s.dossier a).row.extensionMinutes ≤ (s'.dossier a).row.endTime
  | _ => True

theorem keepsWindow (hx : (engine.prog l).Exec Exact s (.ok r) s') : KeepsWindow a (l, s, s') := by
  cases l with
  | placeBid b bidderUser amount =>
    rintro rfl
    obtain ⟨bid, hplaced⟩ := exec_map_ok hx
    rw [placeBid_end hplaced]
    by_cases hwindow : (s.dossier b).row.extensionMinutes = 0
    · have hopen := biddable_iff.mp (placeBid_admits hplaced).1
      simp only [hwindow, minutes, extendedEnd]
      lia
    · rw [extendedEnd_max _ _ hwindow]
      exact le_max_right ..
  | _ => trivial

end Commits

theorem Fresh.before_end {d : Dossier} (h : Fresh d) : d.row.startTime < d.row.endTime := by
  have hvalid := h.valid
  simp only [AuctionForm.isValid, AuctionForm.cleanError, AuctionForm.of, Bool.and_eq_true,
    Option.isNone_iff_eq_none] at hvalid
  by_contra hlate
  have htime : d.row.endTime ≤ d.row.startTime := not_lt.mp hlate
  simp [htime] at hvalid

section Runs
variable {db : Database} {a : AuctionId} {w v : World Database Nat}
variable {before during : List (World Database Nat × Request Call Outside)}

/-- What every move keeps about one auction, serving keeps. -/
theorem served_dossier {I : Dossier → Prop} (hrun : Run engine.serve w during v)
    (hfirst : I (w.db.dossier a))
    (hmove : ∀ t act d d', I d → Move (.alone t) act d d' → I d') : I (v.db.dossier a) := by
  refine hrun.log (I := fun _ s => I (s.dossier a)) hfirst ?_ ?_
  · intro _ l s r s' h hx
    rcases service_dossier (fun b => alone_admits b s.clock) hx a with ⟨_, hsame⟩ | ⟨_, hm⟩
    · rw [hsame]
      exact h
    · exact hmove _ _ _ _ h hm
  · intro _ o s h
    rw [congrFun (outside_dossier o s) a]
    exact h

/-- A live period: the end is the latest of the ends that its commits gave. -/
theorem live_period (hrun : Run engine.serve w during v) (hlive : (w.db.dossier a).row.status = .live)
    (hstays : StaysLive a (engine.log during)) :
    (v.db.dossier a).row.status = .live ∧ (v.db.dossier a).row.endTime =
      ((engine.log during).filterMap (deadline a)).foldl max (w.db.dossier a).row.endTime := by
  refine hrun.log (I := fun log s => StaysLive a log → (s.dossier a).row.status = .live ∧
    (s.dossier a).row.endTime = (log.filterMap (deadline a)).foldl max (w.db.dossier a).row.endTime)
    (fun _ => ⟨hlive, rfl⟩) ?_ ?_ hstays
  · intro past l s r s' ih hx hall
    obtain ⟨hbefore, hend⟩ := ih fun x hx => hall x (List.mem_append_left _ hx)
    refine ⟨hall _ (List.mem_append_right _ (List.mem_singleton_self _)), ?_⟩
    rw [live_end hx hbefore, hend, List.filterMap_append, List.foldl_append]
    cases hdeadline : deadline a (l, s, s') with
    | none => simp [hdeadline]
    | some e => simp [hdeadline]
  · intro past o s ih hall
    rw [congrFun (outside_dossier o s) a]
    exact ih hall

theorem log_keepsWindow (hrun : Run engine.serve w during v) :
    ∀ x ∈ engine.log during, KeepsWindow a x := by
  refine hrun.log (I := fun log _ => ∀ x ∈ log, KeepsWindow a x)
    (fun _ hx => absurd hx List.not_mem_nil) ?_ fun _ _ _ h => h
  intro past l s r s' ih hx x hmem
  rcases List.mem_append.mp hmem with hmem | hmem
  · exact ih x hmem
  · rw [List.mem_singleton.mp hmem]
    exact keepsWindow hx

theorem placeBid_rejected {u : UserId} {amount : Number} {e : PyError} {w' : World Database Nat}
    (h : (engine.body (.placeBid a u amount)).run engine w = (.error e, w')) : w'.db = w.db := by
  change (ServiceTx.placeBid a u amount).alone.run engine w = _ at h
  simp only [ServiceTx.alone, Task.run] at h
  rcases atomic_cases (engine.prog (.placeBid a u amount)) w with
    ⟨r, v, hrun, _⟩ | ⟨e, v, s, hrun, hsame, _⟩
  · rw [hrun] at h
    cases h
  · rw [hrun] at h
    cases h
    exact hsame

theorem le_foldl_max (e : Time) (ends : List Time) : e ≤ ends.foldl max e := by
  induction ends generalizing e with
  | nil => exact le_refl e
  | cons x rest ih => exact (le_max_left e x).trans (ih (max e x))

/-- In every state that requests lead to, the start is before the end. From a live state on the
start is fixed; as long as every commit leaves the auction live, the end never moves back, and
it is the latest of what it was and of the ends that the commits gave: those of new schedules,
and the window after each bid. After every accepted bid the window remains, and a rejected bid
moves nothing. -/
theorem deadline_is_latest (hfresh : Fresh (db.dossier a)) (hbefore : Served db before w)
    (hrun : Run engine.serve w during v) :
    (w.db.dossier a).row.startTime < (w.db.dossier a).row.endTime ∧
    ((w.db.dossier a).row.status = .live →
      (v.db.dossier a).row.startTime = (w.db.dossier a).row.startTime) ∧
    ((w.db.dossier a).row.status = .live → StaysLive a (engine.log during) →
      (w.db.dossier a).row.endTime ≤ (v.db.dossier a).row.endTime ∧
      (v.db.dossier a).row.endTime =
        ((engine.log during).filterMap (deadline a)).foldl max (w.db.dossier a).row.endTime) ∧
    (∀ x ∈ engine.log during, KeepsWindow a x) ∧
    ∀ u amount e v', (engine.body (.placeBid a u amount)).run engine v = (.error e, v') →
      (v'.db.dossier a).row.endTime = (v.db.dossier a).row.endTime := by
  refine ⟨?_, ?_, ?_, log_keepsWindow hrun, ?_⟩
  · refine served_dossier (I := fun d => d.row.startTime < d.row.endTime) hbefore ?_
      fun _ _ _ _ h hm => hm.ordered h
    exact hfresh.before_end
  · intro hlive
    have hkept := served_dossier (a := a) (I := fun d => d.row.status.beforeStart = false ∧
        d.row.startTime = (w.db.dossier a).row.startTime) hrun ⟨by rw [hlive]; rfl, rfl⟩
      fun _ _ _ _ h hm => ⟨hm.past_start h.1, (hm.start_kept h.1).trans h.2⟩
    exact hkept.2
  · intro hlive hstays
    obtain ⟨_, hend⟩ := live_period hrun hlive hstays
    refine ⟨?_, hend⟩
    rw [hend]
    exact le_foldl_max ..
  · intro u amount e v' hrejected
    rw [placeBid_rejected hrejected]

/-- Two minutes before the end a bid of 700000 comes in. -/
def bidAtEnd (w : World Database Nat) : List (World Database Nat × Request Call Outside) :=
  [(w, .outside (.tick 2880000000)),
    ({ w with db := engine.outside (.tick 2880000000) w.db }, .call (.placeBid 0 2 (.int 700000)))]

theorem bidAtEnd_run (w : World Database Nat) : Run engine.serve w (bidAtEnd w)
    ((engine.body (.placeBid 0 2 (.int 700000))).run engine
      { w with db := engine.outside (.tick 2880000000) w.db }).2 :=
  .snoc (.snoc .start rfl) rfl

/-- A bid two minutes before the end gives the auction five minutes more. -/
theorem deadline_is_latest_sample : ∃ before w v, Served sampleDatabase before w ∧
    Run engine.serve w (bidAtEnd w) v ∧ (w.db.dossier 0).row.endTime = minutes 60 ∧
    (v.db.dossier 0).row.endTime =
      ((engine.log (bidAtEnd w)).filterMap (deadline 0)).foldl max (minutes 60) ∧
    (engine.log (bidAtEnd w)).filterMap (deadline 0) = [minutes 63] := by
  obtain ⟨before, w, hrun, hw⟩ := served_state sampleDatabase opening (fun w =>
    (w.db.dossier 0).row.status == .live && (w.db.dossier 0).row.endTime == minutes 60 &&
      (engine.log (bidAtEnd w)).all (fun x => (x.2.2.dossier 0).row.status == .live) &&
      (engine.log (bidAtEnd w)).filterMap (deadline 0) == [minutes 63]) (by decide +kernel)
  simp only [Bool.and_eq_true, beq_iff_eq, List.all_eq_true] at hw
  obtain ⟨⟨⟨hlive, hend⟩, hstays⟩, hdeadlines⟩ := hw
  have hclosed := ((deadline_is_latest sample_fresh hrun (bidAtEnd_run w)).2.2.1 hlive hstays).2
  rw [hend] at hclosed
  exact ⟨before, w, _, hrun, bidAtEnd_run w, hend, hclosed, hdeadlines⟩

end Runs

end MbararaAuction
