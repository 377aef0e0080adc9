import LocalSend.Verification.Auth.History
import LocalSend.Verification.Auth.RateLimit

/-! # The guessing budget of an address

Wrong PINs are counted in the challenge record, and a fresh challenge starts a new count.
The budget of five in thirty seconds holds as long as no challenge is issued to the address
within thirty seconds of a wrong PIN.
-/

namespace LocalSend.Auth

open Transition

/-- When the address has compared a wrong PIN, the latest time first. -/
def missTimes (client : CString) : List Entry → List ℕ
  | [] => []
  | entry :: log =>
      match entry.call with
      | .verify clientAddress _ _ now _ =>
          if entry.missed ∧ clientAddress = client then now.toNat :: missTimes client log
          else missTimes client log
      | _ => missTimes client log

/-- In every half-open window of the rate limit's length, at most five of the times. -/
def Budgeted (times : List ℕ) : Prop :=
  ∀ start, times.countP (fun time => start ≤ time ∧
    time < start + AUTH_RATE_LIMIT_SECONDS.toNat) ≤ AUTH_MAX_ATTEMPTS

/-- A create finds the table such that it will issue a challenge. -/
structure Issuing (manager : Manager) (clientAddress : CString) (now : UInt64) (random : Random) :
    Prop where
  table : ReachesTable clientAddress random
  unlimited :
    (scanChallenges clientAddress now (cleanupExpired manager now).challenges).limited = false
  free :
    (scanChallenges clientAddress now (cleanupExpired manager now).challenges).slot.isSome = true

/-- The call is no create that issues the client a challenge within the rate limit's time of
a wrong PIN of it. -/
def SparesBudget (client : CString) (logged : Logged) : Call → Prop
  | .create clientAddress now random => clientAddress = client →
      Issuing logged.state.manager client now random →
      ∀ time ∈ missTimes client logged.log, time + AUTH_RATE_LIMIT_SECONDS.toNat ≤ now.toNat
  | _ => True

variable {client : CString} {logged : Logged} {log : List Entry} {now : UInt64}

/-! ## Times -/

/-- Times that lie a whole window apart share no window. -/
theorem Budgeted.append {current old : List ℕ} {born : ℕ} (h : Budgeted old)
    (hold : ∀ time ∈ old, time + AUTH_RATE_LIMIT_SECONDS.toNat ≤ born)
    (hcurrent : ∀ time ∈ current, born ≤ time) (hfew : current.length ≤ AUTH_MAX_ATTEMPTS) :
    Budgeted (current ++ old) := by
  intro start
  rw [List.countP_append]
  by_cases hshared : start + AUTH_RATE_LIMIT_SECONDS.toNat ≤ born
  · have hnone : current.countP (fun time => start ≤ time ∧
        time < start + AUTH_RATE_LIMIT_SECONDS.toNat) = 0 := by
      rw [List.countP_eq_zero]
      intro time hmem
      have hle := hcurrent time hmem
      simp only [decide_eq_true_eq]
      omega
    rw [hnone, Nat.zero_add]
    exact h start
  · have hnone : old.countP (fun time => start ≤ time ∧
        time < start + AUTH_RATE_LIMIT_SECONDS.toNat) = 0 := by
      rw [List.countP_eq_zero]
      intro time hmem
      have hle := hold time hmem
      simp only [decide_eq_true_eq]
      omega
    rw [hnone, Nat.add_zero]
    exact Nat.le_trans List.countP_le_length hfew

/-! ## The invariant -/

/-- The wrong PINs of the client are those counted in its record, and older ones that lie a
whole window before the record's challenge was issued. -/
structure Rationed (client : CString) (logged : Logged) (current old : List ℕ) (born : ℕ) :
    Prop where
  times : missTimes client logged.log = current ++ old
  budgeted : Budgeted old
  older : ∀ time ∈ old, time + AUTH_RATE_LIMIT_SECONDS.toNat ≤ born
  newer : ∀ time ∈ current, born ≤ time
  born_le : born ≤ logged.state.clock.toNat
  few : current.length ≤ AUTH_MAX_ATTEMPTS
  counted : ∀ (i : ℕ) challenge, logged.state.manager.challenges[i]? = some challenge →
    challenge.ownedBy client = true → challenge.attempts = current.length

/-- What every step keeps that spares the budget. -/
structure BudgetInv (client : CString) (logged : Logged) : Prop where
  tidy : Tidy logged.state.manager.challenges
  rationed : ∃ current old born, Rationed client logged current old born

theorem BudgetInv.budgeted (h : BudgetInv client logged) :
    Budgeted (missTimes client logged.log) := by
  obtain ⟨current, old, born, hrationed⟩ := h.rationed
  rw [hrationed.times]
  exact hrationed.budgeted.append hrationed.older hrationed.newer hrationed.few

/-- A call that is no wrong PIN of the client, and gives it no other record. -/
theorem BudgetInv.keep {manager : Manager} {entry : Entry} (h : BudgetInv client logged)
    (hclock : logged.state.clock ≤ now)
    (htimes : missTimes client (entry :: logged.log) = missTimes client logged.log)
    (htidy : Tidy manager.challenges)
    (hrecords : ∀ (i : ℕ) challenge, manager.challenges[i]? = some challenge →
      challenge.ownedBy client = true → ∃ before,
        logged.state.manager.challenges[i]? = some before ∧ before.ownedBy client = true ∧
          challenge.attempts = before.attempts) :
    BudgetInv client ⟨⟨manager, now⟩, entry :: logged.log⟩ := by
  obtain ⟨current, old, born, hrationed⟩ := h.rationed
  refine ⟨htidy, current, old, born, htimes.trans hrationed.times, hrationed.budgeted,
    hrationed.older, hrationed.newer, ?_, hrationed.few, ?_⟩
  · exact Nat.le_trans hrationed.born_le (UInt64.le_iff_toNat_le.mp hclock)
  · intro i challenge hget howned
    obtain ⟨before, hbefore, howned', hattempts⟩ := hrecords i challenge hget howned
    exact hattempts.trans (hrationed.counted i before hbefore howned')

/-- A verify that overwrites the record of its address. -/
theorem BudgetInv.set {manager : Manager} {entry : Entry} {slot : ℕ}
    {challenge replaced : Challenge} {clientAddress challengeId : CString}
    (h : BudgetInv client logged) (hclock : logged.state.clock ≤ now)
    (htimes : missTimes client (entry :: logged.log) = missTimes client logged.log)
    (hfinds : Finds logged.state.manager.challenges clientAddress challengeId slot challenge)
    (hset : manager.challenges = logged.state.manager.challenges.set slot replaced)
    (htidy : Tidy manager.challenges)
    (hreplaced : replaced.ownedBy client = true → challenge.ownedBy client = true ∧
      replaced.attempts = challenge.attempts) :
    BudgetInv client ⟨⟨manager, now⟩, entry :: logged.log⟩ := by
  refine h.keep hclock htimes htidy ?_
  intro i other hget howned
  rw [hset, List.getElem?_set] at hget
  split at hget
  · rename_i hi
    subst hi
    split at hget
    · cases hget
      obtain ⟨howned', hattempts⟩ := hreplaced howned
      exact ⟨challenge, hfinds.get, howned', hattempts⟩
    · cases hget
  · exact ⟨other, hget, howned, rfl⟩

/-- A wrong PIN of the client is one more in its record. -/
theorem BudgetInv.missed {manager : Manager} {entry : Entry} {slot : ℕ} {challenge : Challenge}
    {challengeId : CString} (h : BudgetInv client logged) (hclock : logged.state.clock ≤ now)
    (htimes : missTimes client (entry :: logged.log) = now.toNat :: missTimes client logged.log)
    (hfinds : Finds logged.state.manager.challenges client challengeId slot challenge)
    (hlive : challenge.Live now)
    (hset : manager.challenges =
      logged.state.manager.challenges.set slot (challenge.missed now))
    (htidy : Tidy manager.challenges) :
    BudgetInv client ⟨⟨manager, now⟩, entry :: logged.log⟩ := by
  obtain ⟨current, old, born, hrationed⟩ := h.rationed
  obtain ⟨pin, limit, hmissed, -⟩ := challenge.missed_eq now
  have hcount := hrationed.counted slot challenge hfinds.get
    (Challenge.ownedBy_iff.mpr ⟨hfinds.occupied, hfinds.address⟩)
  have hborn := Nat.le_trans hrationed.born_le (UInt64.le_iff_toNat_le.mp hclock)
  have hfew := hlive.few
  refine ⟨htidy, now.toNat :: current, old, born, ?_, hrationed.budgeted, hrationed.older, ?_,
    hborn, ?_, ?_⟩
  · rw [htimes, hrationed.times, List.cons_append]
  · intro time hmem
    rcases List.mem_cons.mp hmem with rfl | hmem
    · exact hborn
    · exact hrationed.newer time hmem
  · rw [List.length_cons]
    omega
  · intro i other hget howned
    rw [hset, List.getElem?_set] at hget
    split at hget
    · split at hget
      · cases hget
        rw [hmissed, List.length_cons, ← hcount]
      · cases hget
    · rename_i hi
      have howned' := Challenge.ownedBy_iff.mp howned
      exact absurd (h.tidy.alone slot i challenge other hfinds.get hget hfinds.occupied
        howned'.1 (hfinds.address.trans howned'.2.symm)) hi

/-- A challenge is issued to the client a whole window after its last wrong PIN. -/
theorem BudgetInv.issued {manager : Manager} {entry : Entry} (h : BudgetInv client logged)
    (htimes : missTimes client (entry :: logged.log) = missTimes client logged.log)
    (hspares : ∀ time ∈ missTimes client logged.log,
      time + AUTH_RATE_LIMIT_SECONDS.toNat ≤ now.toNat)
    (htidy : Tidy manager.challenges)
    (hrecords : ∀ (i : ℕ) challenge, manager.challenges[i]? = some challenge →
      challenge.ownedBy client = true → challenge.attempts = 0) :
    BudgetInv client ⟨⟨manager, now⟩, entry :: logged.log⟩ := by
  refine ⟨htidy, [], missTimes client logged.log, now.toNat, htimes, h.budgeted, hspares, ?_,
    Nat.le_refl _, Nat.zero_le _, hrecords⟩
  intro time hmem
  cases hmem

/-- The clean-up takes records away. -/
theorem BudgetInv.cleaned {manager : Manager} {entry : Entry} (h : BudgetInv client logged)
    (hclock : logged.state.clock ≤ now)
    (htimes : missTimes client (entry :: logged.log) = missTimes client logged.log)
    (hmanager : manager = logged.state.manager ∨
      manager = cleanupExpired logged.state.manager now) :
    BudgetInv client ⟨⟨manager, now⟩, entry :: logged.log⟩ := by
  rcases hmanager with rfl | rfl
  · exact h.keep hclock htimes h.tidy fun i challenge hget howned => ⟨challenge, hget, howned, rfl⟩
  · refine h.keep hclock htimes (h.tidy.unexpired now) ?_
    intro i challenge hget howned
    exact ⟨challenge, getElem?_unexpired hget (Challenge.ownedBy_iff.mp howned).1, howned, rfl⟩

/-! ## Calls -/

theorem BudgetInv.verify {clientAddress challengeId pin : CString} {random : Random}
    {missed : Bool} {stretch : Manager × AuthResult × Option SessionResult}
    (h : BudgetInv client logged) (hclock : logged.state.clock ≤ now)
    (hspec : Verified logged.state.manager clientAddress challengeId pin now random missed
      stretch) :
    BudgetInv client ⟨⟨stretch.1, now⟩,
      verifyEntry clientAddress challengeId pin now random missed stretch.2 :: logged.log⟩ := by
  have hsame : ∀ (i : ℕ) challenge, logged.state.manager.challenges[i]? = some challenge →
      challenge.ownedBy client = true → ∃ before,
        logged.state.manager.challenges[i]? = some before ∧ before.ownedBy client = true ∧
          challenge.attempts = before.attempts :=
    fun i challenge hget howned => ⟨challenge, hget, howned, rfl⟩
  cases hspec with
  | unmatched | spent | unissued => exact h.keep hclock rfl h.tidy hsame
  | expired slot challenge hformed hfinds hexpired =>
      refine h.set hclock rfl hfinds rfl (h.tidy.finds_set hfinds (.inl rfl)) ?_
      intro howned
      cases howned
  | confirmed token slot challenge hformed hfinds hlive hright htoken =>
      refine h.set hclock rfl hfinds rfl (h.tidy.finds_set hfinds (.inr ?_)) ?_
      · exact Challenge.ownedBy_iff.mpr ⟨hfinds.occupied, hfinds.address⟩
      · exact fun howned => ⟨howned, rfl⟩
  | missed result hresult slot challenge hformed hfinds hlive hwrong =>
      obtain ⟨pin', limit, hmissed, -⟩ := challenge.missed_eq now
      have howned : (challenge.missed now).ownedBy clientAddress = true := by
        rw [hmissed]
        exact Challenge.ownedBy_iff.mpr ⟨hfinds.occupied, hfinds.address⟩
      have htidy := h.tidy.finds_set hfinds (.inr howned)
      by_cases hclient : clientAddress = client
      · subst hclient
        exact h.missed hclock (if_pos ⟨rfl, rfl⟩) hfinds hlive rfl htidy
      · refine h.set hclock (if_neg fun hboth => hclient hboth.2) hfinds rfl htidy ?_
        intro howned'
        rw [Challenge.ownedBy_iff] at howned howned'
        exact absurd (howned.2.symm.trans howned'.2) hclient

theorem issuing_of_ok {manager : Manager} {clientAddress : CString} {random : Random}
    (h : (authCreateChallengeAt manager clientAddress now random).2.1 = .ok) :
    Issuing manager clientAddress now random := by
  unfold authCreateChallengeAt at h
  split at h
  · cases h
  rename_i haddress
  split at h
  · rename_i challengeId pin hid hpin
    dsimp only at h
    split at h
    · cases h
    rename_i hlimited
    split at h
    · cases h
    · rename_i slot hslot
      exact ⟨⟨not_not.mp haddress, by simp [hid], by simp [hpin]⟩, by simpa using hlimited,
        by simp [hslot]⟩
  · cases h

theorem budgetInv_record {next : Logged} {call : Call} (h : BudgetInv client logged)
    (hspares : SparesBudget client logged call) (hrecord : record logged call = some next) :
    BudgetInv client next := by
  obtain ⟨hclock, rfl⟩ := record_eq hrecord
  cases call with
  | create clientAddress now random =>
      have hspec := authCreateChallengeAt_spec h.tidy clientAddress now random
      have hissuing : (authCreateChallengeAt logged.state.manager clientAddress now random).2.1 =
          .ok → Issuing logged.state.manager clientAddress now random := issuing_of_ok
      simp only [Manager.after, Manager.reply, Call.now]
      generalize authCreateChallengeAt logged.state.manager clientAddress now random = created
        at hspec hissuing
      cases hspec with
      | refused result => exact h.cleaned hclock rfl (.inl rfl)
      | kept result => exact h.cleaned hclock rfl (.inr rfl)
      | issued challengeId pin slot haddress hid hpin hfree =>
          have htidy := h.tidy.issued now slot clientAddress challengeId pin
            (now + logged.state.manager.pinTtlSeconds.toUInt64)
          by_cases hclient : clientAddress = client
          · refine h.issued rfl (hspares hclient (hclient ▸ hissuing rfl)) htidy ?_
            intro i challenge hget howned
            rw [List.getElem?_set] at hget
            split at hget
            · split at hget
              · cases hget
                rfl
              · cases hget
            · obtain ⟨hoccupied, haddress⟩ := Challenge.ownedBy_iff.mp howned
              exact absurd (haddress.trans hclient.symm) (getElem?_withoutOwn hget hoccupied).2
          · refine h.keep hclock rfl htidy ?_
            intro i challenge hget howned
            obtain ⟨hoccupied, haddress⟩ := Challenge.ownedBy_iff.mp howned
            rw [List.getElem?_set] at hget
            split at hget
            · split at hget
              · cases hget
                exact absurd haddress hclient
              · cases hget
            · have hget' := (getElem?_withoutOwn hget hoccupied).1
              exact ⟨challenge, getElem?_unexpired hget' hoccupied, howned, rfl⟩
  | verify clientAddress challengeId pin now random =>
      exact h.verify hclock (authVerifyChallengeAt_spec ..)
  | validate clientAddress authorization now =>
      refine h.cleaned hclock rfl ?_
      simp only [Manager.after, authValidateBearerAt]
      split
      · exact .inl rfl
      · split
        · exact .inl rfl
        · exact .inr rfl

/-! ## Runs -/

theorem budgetInv_start {pinTtlSeconds sessionTtlSeconds : UInt32} {manager : Manager}
    (hcreate : authManagerCreate pinTtlSeconds sessionTtlSeconds = some manager)
    (clock : UInt64) : BudgetInv client (.start manager clock) := by
  have hledger := ledger_start hcreate clock
  refine ⟨hledger.tidy, [], [], 0, rfl, fun _ => Nat.zero_le _, ?_, ?_, Nat.zero_le _,
    Nat.zero_le _, ?_⟩
  · intro time hmem
    cases hmem
  · intro time hmem
    cases hmem
  · intro i challenge hget howned
    obtain ⟨issue, hmirrors⟩ := hledger.mirrors i challenge hget
      (Challenge.ownedBy_iff.mp howned).1
    cases hmirrors.last

/-- In a run in which the client is issued no challenge within the rate limit's time of a
wrong PIN, every window of that length sees at most five of its wrong PINs. -/
theorem budgeted_of_spares {pinTtlSeconds sessionTtlSeconds : UInt32} {manager : Manager}
    {clock : UInt64} {calls : List Call}
    (hcreate : authManagerCreate pinTtlSeconds sessionTtlSeconds = some manager)
    (hrun : Run record (SparesBudget client) (.start manager clock) calls logged) :
    Budgeted (missTimes client logged.log) :=
  (hrun.invariant (fun _ _ _ => budgetInv_record) (budgetInv_start hcreate clock)).budgeted

namespace Sample

def triedPin : CString := pinDigits 2

/-- A challenge and `count` wrong PINs for it, all at 1000. -/
def guesses (seed : UInt8) (count : ℕ) : List Call :=
  .create phone 1000 (random seed) ::
    .replicate count (.verify phone (idOf seed) triedPin 1000 (random seed))

end Sample

open Sample in
/-- Four wrong PINs for one challenge stay within the budget. -/
theorem budgeted_guesses :
    ∃ logged, exec record (.start manager 0) (guesses 1 4) = some logged ∧
      (missTimes phone logged.log).length = 4 ∧ Budgeted (missTimes phone logged.log) := by
  have hfound : ∃ logged, exec record (.start manager 0) (guesses 1 4) = some logged ∧
      (missTimes phone logged.log).length = 4 :=
    exists_of_exec (by decide +kernel)
  obtain ⟨logged, hexec, hlength⟩ := hfound
  obtain ⟨created, hcreated, hrest⟩ := Option.bind_eq_some_iff.mp hexec
  have hfirst : SparesBudget phone (.start manager 0) (.create phone 1000 (random 1)) := by
    intro _ _ time hmem
    cases hmem
  have hverifies : ∀ call ∈ List.replicate 4 (Call.verify phone (idOf 1) triedPin 1000
      (random 1)), ∀ logged, SparesBudget phone logged call := by
    intro call hmem logged
    rw [List.eq_of_mem_replicate hmem]
    trivial
  have hcreate : authManagerCreate 300 1800 = some manager := by decide +kernel
  exact ⟨logged, hexec, hlength,
    budgeted_of_spares hcreate (Run.cons hfirst hcreated (Run.of_exec hverifies hrest))⟩

open Sample in
/-- Four wrong PINs, a fresh challenge and four more, within one second. -/
theorem freshChallenge_exceeds_budget :
    ∃ logged, exec record (.start manager 0) (guesses 1 4 ++ guesses 2 4) = some logged ∧
      ¬Budgeted (missTimes phone logged.log) := by
  have hfound : ∃ logged, exec record (.start manager 0) (guesses 1 4 ++ guesses 2 4) =
      some logged ∧ missTimes phone logged.log = .replicate 8 1000 :=
    exists_of_exec (by decide +kernel)
  obtain ⟨logged, hexec, htimes⟩ := hfound
  refine ⟨logged, hexec, fun hbudgeted => ?_⟩
  rw [htimes] at hbudgeted
  exact absurd (hbudgeted 1000) (by decide)

end LocalSend.Auth
