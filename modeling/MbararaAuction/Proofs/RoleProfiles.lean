import MbararaAuction.Model.Users
import MbararaAuction.Proofs.Discipline
import MbararaAuction.Proofs.Labels
import MbararaAuction.Transactions.Runs

namespace MbararaAuction
open Transactions Locking

seal Tx.Exec

/-- Whoever has the role of a seller or of a bidder has the profile of the role; that it is
the only one is the key of its table. -/
structure RoleProfiles (s : Database) : Prop where
  sellers : ∀ u ∈ s.userPks, (s.users u).role = .seller → (s.sellerProfiles u).isSome = true
  bidders : ∀ u ∈ s.userPks, (s.users u).role = .bidder → (s.bidderProfiles u).isSome = true

/-- The page of an auction that is live opens for every bidder. -/
def PagesOpen (s : Database) : Prop :=
  ∀ a ∈ s.auctionPks, (s.dossier a).row.status = .live → ∀ u ∈ s.userPks,
    (s.users u).role = .bidder → ∃ page, detail s (.user u (s.users u)) a = .ok page

/-- The bid history of every auction that is live, and that a bidder may look at, has a
letter for each of its bidders. -/
def LettersSuffice (s : Database) : Prop :=
  ∀ a ∈ s.auctionPks, (s.dossier a).row.status = .live →
    (∃ u ∈ s.userPks, (s.users u).role = .bidder) →
    'A'.toNat + (firstBidders (s.dossier a).bids).length ≤ 0x110000

/-- The profiles that are there are left as they are. -/
structure KeepsProfiles (s t : Database) : Prop where
  sellers : ∀ u p, s.sellerProfiles u = some p → t.sellerProfiles u = some p
  bidders : ∀ u p, s.bidderProfiles u = some p → t.bidderProfiles u = some p

/-- No profile goes. -/
structure ProfilesStay (s t : Database) : Prop where
  sellers : ∀ u, (s.sellerProfiles u).isSome = true → (t.sellerProfiles u).isSome = true
  bidders : ∀ u, (s.bidderProfiles u).isSome = true → (t.bidderProfiles u).isSome = true

/-- A user who is saved with a role has its profile already. -/
def FindsProfile (s : Database) : AccountEvent → Prop
  | .save u row => (row.role = .seller → (s.sellerProfiles u).isSome = true) ∧
      (row.role = .bidder → (s.bidderProfiles u).isSome = true)
  | .create _ _ | .elsewhere _ => True

instance (s : Database) : (ev : AccountEvent) → Decidable (FindsProfile s ev)
  | .save _ _ => inferInstanceAs (Decidable (_ ∧ _))
  | .create _ _ | .elsewhere _ => inferInstanceAs (Decidable True)

instance (s : Database) : Decidable (LettersSuffice s) := by
  unfold LettersSuffice
  infer_instance

section Saves
variable {s s' : Database} {u x : UserId} {row : User} {created : Bool}

theorem ok_of_toOption {E α : Type} {e : Except E α} {a : α} (h : e.toOption = some a) :
    e = .ok a := by
  cases e with
  | error => cases h
  | ok b => rw [Option.some.inj h]

/-- The receiver changes no profile that is there. -/
theorem createRoleProfile_keeps : KeepsProfiles s (createRoleProfile u row created s) := by
  unfold createRoleProfile
  split
  · exact ⟨fun _ _ h => h, fun _ _ h => h⟩
  split
  · refine ⟨fun x p h => ?_, fun _ _ h => h⟩
    by_cases hx : x = u
    · subst hx
      simp [Database.getOrCreateSeller, h]
    · simp [Database.getOrCreateSeller, hx, h]
  · refine ⟨fun _ _ h => h, fun x p h => ?_⟩
    by_cases hx : x = u
    · subst hx
      simp [Database.getOrCreateBidder, h]
    · simp [Database.getOrCreateBidder, hx, h]
  · exact ⟨fun _ _ h => h, fun _ _ h => h⟩
  · exact ⟨fun _ _ h => h, fun _ _ h => h⟩

/-- For a user who is new it makes the profile of the role. -/
theorem createRoleProfile_makes (hcreated : created = true) :
    (row.role = .seller → ((createRoleProfile u row created s).sellerProfiles u).isSome = true) ∧
      (row.role = .bidder → ((createRoleProfile u row created s).bidderProfiles u).isSome = true) := by
  subst hcreated
  constructor
  · intro hrole
    simp [createRoleProfile, hrole, Database.getOrCreateSeller]
  · intro hrole
    simp [createRoleProfile, hrole, Database.getOrCreateBidder]

theorem createRoleProfile_people : (createRoleProfile u row created s).userPks = s.userPks ∧
    (createRoleProfile u row created s).users = s.users := by
  unfold createRoleProfile
  split
  · exact ⟨rfl, rfl⟩
  split <;> exact ⟨rfl, rfl⟩

theorem KeepsProfiles.stay (h : KeepsProfiles s s') : ProfilesStay s s' := by
  constructor
  · intro x hx
    obtain ⟨p, hp⟩ := Option.isSome_iff_exists.mp hx
    rw [h.sellers x p hp]
    rfl
  · intro x hx
    obtain ⟨p, hp⟩ := Option.isSome_iff_exists.mp hx
    rw [h.bidders x p hp]
    rfl

/-- What a save leaves: the row, and the work of the receiver. -/
theorem saveUser_ok (h : saveUser u row s = .ok s') :
    s' = createRoleProfile u row (decide (u ∉ s.userPks)) (s.putUser u row) := by
  unfold saveUser at h
  split at h
  · cases h
  · exact (Except.ok.inj h).symm

theorem saveUser_keeps (h : saveUser u row s = .ok s') : KeepsProfiles s s' := by
  rw [saveUser_ok h]
  exact ⟨(createRoleProfile_keeps (s := s.putUser u row)).sellers,
    (createRoleProfile_keeps (s := s.putUser u row)).bidders⟩

theorem saveUser_people (h : saveUser u row s = .ok s') :
    s'.userPks = withKey s.userPks u ∧ s'.users = (s.putUser u row).users := by
  rw [saveUser_ok h]
  exact createRoleProfile_people

/-- The roles have their profiles after a save exactly if the one who is saved has. -/
theorem saveUser_profiles (hroles : RoleProfiles s) (h : saveUser u row s = .ok s') :
    RoleProfiles s' ↔ (row.role = .seller → (s'.sellerProfiles u).isSome = true) ∧
      (row.role = .bidder → (s'.bidderProfiles u).isSome = true) := by
  obtain ⟨hpks, husers⟩ := saveUser_people h
  have hstay := (saveUser_keeps h).stay
  have hsaved : s'.users u = row := by simp [husers, Database.putUser]
  have hmem : u ∈ s'.userPks := by
    rw [hpks]
    exact mem_withKey.mpr (.inr rfl)
  have hothers : ∀ x ∈ s'.userPks, x ≠ u → x ∈ s.userPks ∧ s'.users x = s.users x := by
    intro x hx hne
    rw [hpks, mem_withKey] at hx
    exact ⟨hx.resolve_right hne, by simp [husers, Database.putUser, hne]⟩
  constructor
  · intro hall
    have hseller := hall.sellers u hmem
    have hbidder := hall.bidders u hmem
    rw [hsaved] at hseller hbidder
    exact ⟨hseller, hbidder⟩
  · intro ⟨hseller, hbidder⟩
    constructor
    · intro x hx hrole
      by_cases hne : x = u
      · subst hne
        rw [hsaved] at hrole
        exact hseller hrole
      · obtain ⟨hold, hsame⟩ := hothers x hx hne
        rw [hsame] at hrole
        exact hstay.sellers x (hroles.sellers x hold hrole)
    · intro x hx hrole
      by_cases hne : x = u
      · subst hne
        rw [hsaved] at hrole
        exact hbidder hrole
      · obtain ⟨hold, hsame⟩ := hothers x hx hne
        rw [hsame] at hrole
        exact hstay.bidders x (hroles.bidders x hold hrole)

/-- A user who is new has the profile of the role. -/
theorem create_profiles (hroles : RoleProfiles s) (hnew : u ∉ s.userPks)
    (h : saveUser u row s = .ok s') : RoleProfiles s' := by
  rw [saveUser_profiles hroles h, saveUser_ok h]
  exact createRoleProfile_makes (decide_eq_true hnew)

/-- A user who is there gets no profile. -/
theorem save_profiles (hroles : RoleProfiles s) (hthere : u ∈ s.userPks)
    (h : saveUser u row s = .ok s') :
    RoleProfiles s' ↔ (row.role = .seller → (s.sellerProfiles u).isSome = true) ∧
      (row.role = .bidder → (s.bidderProfiles u).isSome = true) := by
  have hsame : s' = s.putUser u row := by
    rw [saveUser_ok h, decide_eq_false (not_not.mpr hthere)]
    rfl
  rw [saveUser_profiles hroles h, hsame]
  rfl

theorem Apart.profiles (h : Apart s s') (hroles : RoleProfiles s) : RoleProfiles s' := by
  obtain ⟨hpks, husers⟩ := h.users
  constructor
  · intro x hx hrole
    rw [hpks] at hx
    rw [husers] at hrole
    rw [h.sellers]
    exact hroles.sellers x hx hrole
  · intro x hx hrole
    rw [hpks] at hx
    rw [husers] at hrole
    rw [h.bidders]
    exact hroles.bidders x hx hrole

theorem Apart.stay (h : Apart s s') : ProfilesStay s s' :=
  ⟨fun x hx => (h.sellers x).trans hx, fun x hx => (h.bidders x).trans hx⟩

theorem step_stay {ev : AccountEvent} (h : ev.step s = some s') : ProfilesStay s s' := by
  cases ev with
  | create u row =>
    simp only [AccountEvent.step] at h
    split at h
    · cases h
    · exact (saveUser_keeps (ok_of_toOption h)).stay
  | save u row =>
    simp only [AccountEvent.step] at h
    split at h
    · exact (saveUser_keeps (ok_of_toOption h)).stay
    · cases h
  | elsewhere change =>
    cases h
    exact (change.property s).stay

/-- One event: the roles have their profiles afterwards exactly if a save found the one of
its role. -/
theorem step_profiles {ev : AccountEvent} (hroles : RoleProfiles s) (h : ev.step s = some s') :
    RoleProfiles s' ↔ FindsProfile s ev := by
  cases ev with
  | create u row =>
    simp only [AccountEvent.step] at h
    split at h
    · cases h
    · next hnew =>
      exact iff_of_true (create_profiles hroles hnew (ok_of_toOption h)) trivial
  | save u row =>
    simp only [AccountEvent.step] at h
    split at h
    · next hthere =>
      exact save_profiles hroles hthere (ok_of_toOption h)
    · cases h
  | elsewhere change =>
    cases h
    exact iff_of_true ((change.property s).profiles hroles) trivial

end Saves

section Pages
variable {s : Database} {a : AuctionId} {u : UserId}

/-- Of an auction that is live the page opens unless the profile or the letters fail. -/
theorem detail_live {viewer : Viewer} (ha : a ∈ s.auctionPks)
    (hlive : (s.dossier a).row.status = .live) :
    (∃ page, detail s viewer a = .ok page) ↔
      (∃ shown, canBid s viewer (s.dossier a).row = .ok shown) ∧
        'A'.toNat + (firstBidders (s.dossier a).bids).length ≤ 0x110000 := by
  have hpublic : publiclyVisible (s.dossier a).row.status = true := by
    rw [hlive]
    rfl
  unfold detail
  simp only [bind, Except.bind, pure, Except.pure, ha, not_true_eq_false, ↓reduceIte, hpublic,
    Bool.true_eq_false, false_and, getBidHistory_entries]
  cases canBid s viewer (s.dossier a).row with
  | error e => simp [Except.mapError]
  | ok shown =>
    by_cases hroom : 'A'.toNat + (firstBidders (s.dossier a).bids).length ≤ 0x110000
    · simp only [if_pos hroom, Except.mapError]
      exact iff_of_true ⟨_, rfl⟩ ⟨⟨shown, rfl⟩, hroom⟩
    · simp only [if_neg hroom, Except.mapError]
      exact iff_of_false (fun ⟨page, hpage⟩ => by cases hpage) fun h => hroom h.2

/-- A bidder who has a profile is told whether to bid. -/
theorem canBid_answers {row : Auction} {user : User}
    (hprofile : user.role = .bidder → (s.bidderProfiles u).isSome = true) :
    ∃ shown, canBid s (.user u user) row = .ok shown := by
  unfold canBid
  dsimp only
  split
  · next hbidder =>
    obtain ⟨profile, hfound⟩ := Option.isSome_iff_exists.mp (hprofile hbidder.1)
    exact ⟨_, by rw [hfound]⟩
  · exact ⟨_, rfl⟩

/-- Where the roles have their profiles, only the letters can keep a page from opening. -/
theorem pagesOpen_iff (hroles : RoleProfiles s) : PagesOpen s ↔ LettersSuffice s := by
  constructor
  · intro hpages a ha hlive hseller
    obtain ⟨u, hu, hrole⟩ := hseller
    exact ((detail_live ha hlive).mp (hpages a ha hlive u hu hrole)).2
  · intro hletters a ha hlive u hu hrole
    rw [detail_live ha hlive]
    exact ⟨canBid_answers (hroles.bidders u hu), hletters a ha hlive ⟨u, hu, hrole⟩⟩

end Pages

section Services
variable {s s' : Database}

theorem apart_refl (s : Database) : Apart s s := ⟨⟨rfl, rfl⟩, fun _ => rfl, fun _ => rfl⟩

theorem Apart.trans {t : Database} (h : Apart s s') (h' : Apart s' t) : Apart s t :=
  ⟨⟨h'.users.1.trans h.users.1, h'.users.2.trans h.users.2⟩,
    fun u => (h'.sellers u).trans (h.sellers u), fun u => (h'.bidders u).trans (h.bidders u)⟩

/-- A profile that is updated stays where it is. -/
theorem write_apart {write : Database → Database} (h : Write write) (s : Database) :
    Apart s (write s) := by
  cases h with
  | seller u f =>
    refine ⟨⟨rfl, rfl⟩, fun x => ?_, fun _ => rfl⟩
    by_cases hx : x = u
    · subst hx
      simp [Database.onSeller]
    · simp [Database.onSeller, hx]
  | bidder u f =>
    refine ⟨⟨rfl, rfl⟩, fun _ => rfl, fun x => ?_⟩
    by_cases hx : x = u
    · subst hx
      simp [Database.onBidder]
    · simp [Database.onBidder, hx]
  | _ => exact ⟨⟨rfl, rfl⟩, fun _ => rfl, fun _ => rfl⟩

/-- The services go on apart from the accounts. -/
theorem service_apart {l : ServiceTx} {sees : Database → Database → Prop}
    {out : Except PyError Value} (h : l.prog.Exec sees s out s') : Apart s s' :=
  (prog_writes l).exec apart_refl (fun h h' => h.trans h') write_apart h

theorem atomic_apart (l : ServiceTx) (w : World Database Nat) :
    Apart w.db (l.prog.atomic w).2.db := by
  rcases atomic_cases l.prog w with ⟨r, w', hrun, hx⟩ | ⟨e, w', t, hrun, hsame, _⟩
  · rw [hrun]
    exact service_apart hx
  · rw [hrun, hsame]
    exact apart_refl w.db

/-- A transaction of the services, while the accounts rest. -/
def Elsewhere.service (l : ServiceTx) (seq : Nat) : Elsewhere :=
  ⟨fun s => (l.prog.atomic ⟨s, seq, []⟩).2.db, fun s => atomic_apart l ⟨s, seq, []⟩⟩

end Services

/-- A history of the accounts that began with the rows `db`. -/
abbrev AccountRun (db : Database) : List (Database × AccountEvent) → Database → Prop :=
  Run AccountEvent.step db

section Runs
variable {db s : Database} {before : List (Database × AccountEvent)}

/-- In every state of a run the roles have their profiles exactly if every save of a user
found the profile of the role. -/
theorem profiles_exact (hstart : RoleProfiles db) (hrun : AccountRun db before s) :
    (∀ y ∈ trail before s, RoleProfiles y) ↔ ∀ x ∈ before, FindsProfile x.1 x.2 := by
  refine hrun.exact (G := fun before s => ∀ y ∈ trail before s, RoleProfiles y)
    (I := fun before s => ∀ y ∈ trail before s, RoleProfiles y) ?_ ?_ (fun _ _ _ h => h) ?_ ?_
  · intro y hy
    rw [trail_start, List.mem_singleton] at hy
    rw [hy]
    exact hstart
  · intro before s ev s' _ hall hfinds hs y hy
    rcases mem_trail_snoc.mp hy with hy | rfl
    · exact hall y hy
    · exact (step_profiles (hall s mem_trail_last) hs).mpr hfinds
  · intro before s ev s' hall y hy
    exact hall y (mem_trail_snoc.mpr (.inl hy))
  · intro before s ev s' _ hall hmisses hs hgood
    exact hmisses ((step_profiles (hall s mem_trail_last) hs).mp (hgood s' mem_trail_last))

end Runs

section Schedules

/-- The sample listing goes live. -/
def goesLive : List AccountEvent :=
  [.elsewhere (.service (.submitForReview 0 1) 0), .elsewhere (.service (.approve 0 0 "") 1),
    .elsewhere (.service (.autoSchedule 0 0) 2), .elsewhere (.service (.activate 0 none) 3)]

theorem sample_profiles : RoleProfiles sampleDatabase := by
  constructor <;> decide

end Schedules

end MbararaAuction
