import LocalSend.Library.Transition
import LocalSend.Model.Auth
import Mathlib.Algebra.Group.Nat.Defs
import Mathlib.Data.List.GetD

/-! # The lock-out after wrong PINs

The lock-out lives in a challenge record. The lemmas say which calls keep that record;
the one that does not is a verify on a challenge that expired while it was locked.
-/

namespace LocalSend.Auth

open Transition

/-- The record carries a lock-out of the address that lasts until `limit`. -/
structure Challenge.LocksOut (challenge : Challenge) (clientAddress : CString)
    (limit : UInt64) : Prop where
  occupied : challenge.occupied = true
  used : challenge.used = false
  address : challenge.clientAddress = clientAddress
  until_ : challenge.rateLimitedUntil = limit
  attempts : AUTH_MAX_ATTEMPTS ≤ challenge.attempts

/-- Some record of the table locks the address out. -/
def Locked (manager : Manager) (clientAddress : CString) (limit : UInt64) : Prop :=
  ∃ challenge ∈ manager.challenges, challenge.LocksOut clientAddress limit

/-- The call is the wrong PIN that uses up the attempts of its challenge. -/
def ReachesLimit (manager : Manager) (clientAddress challengeId pin : CString) (now : UInt64)
    (random : Random) : Prop :=
  (authVerifyChallengeAt manager clientAddress challengeId pin now random).2.1 = .rateLimited ∧
    ∃ slot, findChallenge manager.challenges challengeId = some slot ∧
      (manager.challenges.getD slot .cleared).attempts + 1 = AUTH_MAX_ATTEMPTS

/-- The call passes its argument and random checks. -/
def ReachesTable (clientAddress : CString) (random : Random) : Prop :=
  validClientAddress clientAddress = true ∧
    (generateHex random.idBytes (AUTH_CHALLENGE_ID_HEX_BYTES / 2)).isSome ∧
    (generatePin random.pinDraws).isSome

/-- The call is no verify in which the client names a challenge of its own that has expired
but is still rate limited. -/
def KeepsLockout (client : CString) (state : State) : Call → Prop
  | .verify clientAddress challengeId _ now _ =>
      clientAddress = client →
      ∀ slot, findChallenge state.manager.challenges challengeId = some slot →
        let challenge := state.manager.challenges.getD slot .cleared
        challenge.clientAddress = clientAddress → challenge.expiresAt ≤ now →
          challenge.rateLimitedUntil ≤ now
  | _ => True

instance (client : CString) (state : State) : DecidablePred (KeepsLockout client state)
  | .verify clientAddress challengeId _ now _ => inferInstanceAs (Decidable
      (clientAddress = client → ∀ slot ∈ findChallenge state.manager.challenges challengeId,
        let challenge := state.manager.challenges.getD slot .cleared
        challenge.clientAddress = clientAddress → challenge.expiresAt ≤ now →
          challenge.rateLimitedUntil ≤ now))
  | .create _ _ _ => .isTrue trivial
  | .validate _ _ _ => .isTrue trivial

/-! ## Lists -/

/-- Overwriting a position keeps every entry other than the one it held. -/
theorem mem_set_of_getD_ne {α : Type*} {xs : List α} {x y default : α} {index : ℕ}
    (hmem : x ∈ xs) (hne : xs.getD index default ≠ x) : x ∈ xs.set index y := by
  obtain ⟨position, hposition, rfl⟩ := List.mem_iff_getElem.mp hmem
  have hother : index ≠ position := by
    rintro rfl
    exact hne (List.getD_eq_getElem _ _ hposition)
  rw [← List.getElem_set_ne hother (by simpa using hposition)]
  exact List.getElem_mem _

/-! ## The table scan -/

/-- Records of other addresses, and records still rate limited, survive the scan. -/
theorem mem_scanChallenges {clientAddress : CString} {now : UInt64} {challenge : Challenge}
    {challenges : List Challenge} (hmem : challenge ∈ challenges)
    (hkeep : challenge.clientAddress = clientAddress → now < challenge.rateLimitedUntil) :
    challenge ∈ (scanChallenges clientAddress now challenges).challenges := by
  induction challenges with
  | nil => simp at hmem
  | cons candidate rest ih =>
      rw [scanChallenges]
      split
      · exact hmem
      · rename_i hgo
        rcases List.mem_cons.mp hmem with rfl | hrest
        · have hown : (challenge.occupied && challenge.clientAddress == clientAddress) = false := by
            by_contra howns
            have howns' := (Bool.and_eq_true _ _).mp (Bool.not_eq_false _ ▸ howns)
            simp [howns', hkeep (eq_of_beq howns'.2)] at hgo
          simp [hown]
        · exact List.mem_cons_of_mem _ (ih hrest)

/-- A record that is still rate limited ends the scan of its address. -/
theorem scanChallenges_limited {clientAddress : CString} {now limit : UInt64}
    {challenge : Challenge} {challenges : List Challenge} (hmem : challenge ∈ challenges)
    (hlocks : challenge.LocksOut clientAddress limit) (hnow : now < limit) :
    (scanChallenges clientAddress now challenges).limited = true := by
  induction challenges with
  | nil => simp at hmem
  | cons candidate rest ih =>
      rw [scanChallenges]
      split
      · rfl
      · rename_i hgo
        rcases List.mem_cons.mp hmem with rfl | hrest
        · simp [hlocks.occupied, hlocks.address, hlocks.until_, hnow] at hgo
        · exact ih hrest

/-- The position the scan reports holds a free record. -/
theorem scanChallenges_slot {clientAddress : CString} {now : UInt64} {slot : ℕ}
    {challenges : List Challenge}
    (hslot : (scanChallenges clientAddress now challenges).slot = some slot) :
    ∃ h : slot < (scanChallenges clientAddress now challenges).challenges.length,
      (scanChallenges clientAddress now challenges).challenges[slot].occupied = false := by
  induction challenges generalizing slot with
  | nil => simp [scanChallenges] at hslot
  | cons candidate rest ih =>
      rw [scanChallenges] at hslot ⊢
      split at hslot
      · simp at hslot
      · rename_i hgo
        simp only [hgo] at hslot ⊢
        generalize (if (candidate.occupied && candidate.clientAddress == clientAddress) = true
          then Challenge.cleared else candidate) = kept at hslot ⊢
        split at hslot
        · obtain ⟨inner, hinner, rfl⟩ := Option.map_eq_some_iff.mp hslot
          obtain ⟨hlt, hfree⟩ := ih hinner
          exact ⟨by simpa using hlt, by simpa using hfree⟩
        · rename_i hoccupied
          obtain rfl := Option.some.inj hslot
          exact ⟨by simp, by simpa using hoccupied⟩

/-! ## One call -/

/-- The clean-up spares a record that is still rate limited. -/
theorem Locked.cleanupExpired {manager : Manager} {clientAddress : CString}
    {now limit : UInt64} (hlocked : Locked manager clientAddress limit) (hnow : now < limit) :
    Locked (cleanupExpired manager now) clientAddress limit := by
  obtain ⟨challenge, hmem, hlocks⟩ := hlocked
  have hstale : challenge.stale now = false := by
    simp [Challenge.stale, hlocks.until_, UInt64.not_le.mpr hnow]
  refine ⟨challenge, ?_, hlocks⟩
  exact List.mem_map.mpr ⟨challenge, hmem, by simp [hstale]⟩

theorem Locked.create {manager : Manager} {clientAddress address : CString}
    {now limit : UInt64} {random : Random} (hlocked : Locked manager clientAddress limit)
    (hnow : now < limit) :
    Locked (authCreateChallengeAt manager address now random).1 clientAddress limit := by
  have hclean := hlocked.cleanupExpired hnow
  obtain ⟨challenge, hmem, hlocks⟩ := hclean
  have hscan : challenge ∈ (scanChallenges address now
      (Auth.cleanupExpired manager now).challenges).challenges :=
    mem_scanChallenges hmem fun _ => hlocks.until_ ▸ hnow
  unfold authCreateChallengeAt
  split
  · exact hlocked
  split
  · simp only
    split
    · exact ⟨challenge, hscan, hlocks⟩
    split
    · exact ⟨challenge, hscan, hlocks⟩
    · rename_i slot hslot
      obtain ⟨hlt, hfree⟩ := scanChallenges_slot hslot
      refine ⟨challenge, ?_, hlocks⟩
      obtain ⟨position, hposition, rfl⟩ := List.mem_iff_getElem.mp hscan
      have hother : slot ≠ position := by
        rintro rfl
        simp [hlocks.occupied] at hfree
      exact List.mem_iff_getElem.mpr
        ⟨position, by simpa using hposition, List.getElem_modify_ne _ _ hother _⟩
  · exact hlocked

theorem Locked.verifyFound {manager : Manager} {clientAddress address pin : CString}
    {now limit : UInt64} {random : Random} {slot : ℕ}
    (hlocked : Locked manager clientAddress limit) (hnow : now < limit)
    (hkeeps : address = clientAddress →
      (manager.challenges.getD slot .cleared).clientAddress = address →
      (manager.challenges.getD slot .cleared).expiresAt ≤ now →
      (manager.challenges.getD slot .cleared).rateLimitedUntil ≤ now) :
    Locked (verifyFound manager slot (manager.challenges.getD slot .cleared) address pin now
      random).1 clientAddress limit := by
  obtain ⟨challenge, hmem, hlocks⟩ := hlocked
  by_cases hsame : manager.challenges.getD slot .cleared = challenge
  · -- the record itself is verified: its attempts are used up, so only expiry could erase it
    rw [hsame] at hkeeps ⊢
    unfold Auth.verifyFound
    split
    · exact ⟨challenge, hmem, hlocks⟩
    rename_i haddress
    simp only [hlocks.used, Bool.false_eq_true, if_false]
    split
    · rename_i hexpired
      have haddress' : challenge.clientAddress = address := by simpa using haddress
      have hlate := hkeeps (haddress'.symm.trans hlocks.address) haddress' hexpired
      rw [hlocks.until_] at hlate
      exact absurd hnow (UInt64.not_lt.mpr hlate)
    · rw [if_pos hlocks.attempts]
      exact ⟨challenge, hmem, hlocks⟩
  · have hstore : ∀ other : Challenge, challenge ∈ manager.challenges.set slot other :=
      fun other => mem_set_of_getD_ne hmem hsame
    unfold Auth.verifyFound
    dsimp only
    split
    · exact ⟨challenge, hmem, hlocks⟩
    split
    · exact ⟨challenge, hmem, hlocks⟩
    split
    · exact ⟨challenge, hstore _, hlocks⟩
    split
    · exact ⟨challenge, hmem, hlocks⟩
    split
    · split
      · exact ⟨challenge, hstore _, hlocks⟩
      · exact ⟨challenge, hstore _, hlocks⟩
    split
    · exact ⟨challenge, hmem, hlocks⟩
    · exact ⟨challenge, hstore _, hlocks⟩

/-- A call that meets the condition keeps a lock-out that has not ended. -/
theorem Locked.after {state : State} {clientAddress : CString} {limit : UInt64} {call : Call}
    (hlocked : Locked state.manager clientAddress limit)
    (hkeeps : KeepsLockout clientAddress state call) (hnow : call.now < limit) :
    Locked (state.manager.after call) clientAddress limit := by
  cases call with
  | create address now random => exact hlocked.create hnow
  | verify address challengeId pin now random =>
      unfold Manager.after authVerifyChallengeAt
      simp only
      split
      · exact hlocked
      split
      · exact hlocked
      · rename_i slot hslot
        exact hlocked.verifyFound hnow fun howner => hkeeps howner slot hslot
  | validate address authorization now =>
      unfold Manager.after authValidateBearerAt
      simp only
      split
      · exact hlocked
      split
      · exact hlocked
      · exact hlocked.cleanupExpired hnow

/-- The fifth wrong PIN locks the address out. -/
theorem ReachesLimit.locked {manager : Manager} {clientAddress challengeId pin : CString}
    {now : UInt64} {random : Random}
    (hlimit : ReachesLimit manager clientAddress challengeId pin now random) :
    Locked (authVerifyChallengeAt manager clientAddress challengeId pin now random).1
      clientAddress (now + AUTH_RATE_LIMIT_SECONDS) := by
  obtain ⟨hresult, slot, hslot, hattempts⟩ := hlimit
  have hfound := List.findIdx?_eq_some_iff_getElem.mp hslot
  obtain ⟨hlt, hmatch, -⟩ := hfound
  unfold authVerifyChallengeAt at hresult ⊢
  split at hresult
  · simp at hresult
  rename_i hvalid
  rw [if_neg hvalid]
  simp only [hslot] at hresult ⊢
  rw [List.getD_eq_getElem _ _ hlt] at hresult hattempts ⊢
  generalize manager.challenges[slot] = challenge at hresult hattempts hmatch ⊢
  have hfew : ¬AUTH_MAX_ATTEMPTS ≤ challenge.attempts := by omega
  unfold Auth.verifyFound at hresult ⊢
  dsimp only at hresult ⊢
  split at hresult
  · simp at hresult
  rename_i haddress
  rw [if_neg haddress]
  split at hresult
  · simp at hresult
  rename_i hused
  rw [if_neg hused]
  split at hresult
  · simp at hresult
  rename_i hfresh
  rw [if_neg hfresh]
  rw [if_neg hfew]
  split at hresult
  · rename_i hwrong
    rw [if_pos hwrong]
    simp only [hattempts, Nat.le_refl, if_true]
    refine ⟨_, List.mem_set hlt _, ?_⟩
    simp only [Bool.and_eq_true] at hmatch
    exact ⟨hmatch.1, by simpa using hused, by simpa using haddress, rfl, Nat.le_refl _⟩
  · split at hresult <;> simp at hresult

/-- A create for a locked out address is refused. -/
theorem Locked.create_eq {manager : Manager} {clientAddress : CString} {now limit : UInt64}
    {random : Random} (hlocked : Locked manager clientAddress limit) (hnow : now < limit)
    (htable : ReachesTable clientAddress random) :
    (authCreateChallengeAt manager clientAddress now random).2.1 = .rateLimited := by
  obtain ⟨haddress, hid, hpin⟩ := htable
  obtain ⟨challengeId, hid⟩ := Option.isSome_iff_exists.mp hid
  obtain ⟨pin, hpin⟩ := Option.isSome_iff_exists.mp hpin
  obtain ⟨challenge, hmem, hlocks⟩ := hlocked.cleanupExpired hnow
  have hlimited := scanChallenges_limited hmem hlocks hnow
  simp [authCreateChallengeAt, haddress, hid, hpin, hlimited]

/-! ## Runs -/

/-- The lock-out holds until it ends, in every run without a verify of an expired challenge
that is still rate limited. -/
theorem locked_run {s u : State} {calls : List Call} {clientAddress : CString} {limit : UInt64}
    (hrun : Run step (KeepsLockout clientAddress) s calls u)
    (hlocked : Locked s.manager clientAddress limit ∨ limit ≤ s.clock) :
    Locked u.manager clientAddress limit ∨ limit ≤ u.clock := by
  refine hrun.invariant (I := fun v => Locked v.manager clientAddress limit ∨ limit ≤ v.clock)
    ?_ hlocked
  intro v call w hv hkeeps hstep
  unfold step at hstep
  split at hstep
  · rename_i hclock
    obtain rfl := Option.some.inj hstep
    rcases UInt64.lt_or_le call.now limit with hnow | hnow
    · rcases hv with hv | hv
      · exact .inl (hv.after hkeeps hnow)
      · exact absurd (UInt64.lt_of_lt_of_le hnow hv) (UInt64.not_lt.mpr hclock)
    · exact .inr hnow
  · simp at hstep

/-- After the fifth wrong PIN at `t`, a create of the address within the lock-out is
refused, whatever calls come in between, as long as none of them is a verify of an expired
challenge that is still rate limited. -/
theorem create_rateLimited {s s₁ s₂ : State} {between : List Call}
    {clientAddress challengeId pin : CString} {t now : UInt64} {random random' : Random}
    (hlimit : ReachesLimit s.manager clientAddress challengeId pin t random)
    (hstep : step s (.verify clientAddress challengeId pin t random) = some s₁)
    (hrun : Run step (KeepsLockout clientAddress) s₁ between s₂) (hclock : s₂.clock ≤ now)
    (hnow : now.toNat < t.toNat + AUTH_RATE_LIMIT_SECONDS.toNat)
    (ht : t.toNat + AUTH_RATE_LIMIT_SECONDS.toNat < 2 ^ 64)
    (htable : ReachesTable clientAddress random') :
    (authCreateChallengeAt s₂.manager clientAddress now random').2.1 = .rateLimited := by
  have hend : now < t + AUTH_RATE_LIMIT_SECONDS := by
    rw [UInt64.lt_iff_toNat_lt, UInt64.toNat_add, Nat.mod_eq_of_lt ht]
    exact hnow
  have hs₁ : s₁ = ⟨s.manager.after (.verify clientAddress challengeId pin t random), t⟩ := by
    unfold step at hstep
    split at hstep
    · exact (Option.some.inj hstep).symm
    · simp at hstep
  have hlocked : Locked s₁.manager clientAddress (t + AUTH_RATE_LIMIT_SECONDS) := by
    rw [hs₁]
    exact hlimit.locked
  rcases locked_run hrun (.inl hlocked) with hlocked | hover
  · exact hlocked.create_eq hend htable
  · exact absurd (UInt64.lt_of_le_of_lt (UInt64.le_trans hover hclock) hend) (UInt64.lt_irrefl _)

/-! ## A challenge that expires within the lock-out -/

namespace ShortChallenge

/-- The address `10.0.0.2`. -/
def client : CString := [49, 48, 46, 48, 46, 48, 46, 50]

def challengeId : CString := .replicate 32 48

def rightPin : CString := pinDigits 1

def wrongPin : CString := pinDigits 0

def random : Random := ⟨some (.replicate 16 0), [some 1], some (.replicate 32 0)⟩

/-- The table with one challenge of the client, created at 1000 for 30 seconds. -/
def manager (attempts : ℕ) (limit : UInt64) (pin : CString) : Manager :=
  ⟨30, 1800, ⟨true, false, attempts, 1030, limit, client, challengeId, pin⟩ ::
    .replicate 7 .cleared, .replicate 4 .cleared⟩

def wrongVerify (now : UInt64) : Call := .verify client challengeId wrongPin now random

/-- Another address gets a challenge, and the locked out one tries its PIN and asks for a new
one. -/
def between : List Call :=
  [.create [49, 48, 46, 48, 46, 48, 46, 51] 1022 ⟨some (.replicate 16 1), [some 1], none⟩,
    .verify client challengeId rightPin 1025 random, .create client 1040 random]

/-- The manager the process starts with. -/
def start : Manager := ⟨30, 1800, .replicate 8 .cleared, .replicate 4 .cleared⟩

end ShortChallenge

open ShortChallenge in
theorem reachesLimit_fifth :
    ReachesLimit (ShortChallenge.manager 4 0 rightPin) client challengeId wrongPin 1020 random :=
  ⟨by decide +kernel, 0, by decide +kernel, by decide +kernel⟩

open ShortChallenge in
theorem reachesTable_client : ReachesTable client random :=
  ⟨by decide +kernel, by decide +kernel, by decide +kernel⟩

open ShortChallenge in
/-- A create in the last second of the lock-out, behind calls of the address and of another. -/
theorem create_rateLimited_of_five_wrong :
    ∃ s, exec step ⟨start, 0⟩ (.create client 1000 random :: .replicate 5 (wrongVerify 1020) ++
        ShortChallenge.between) = some s ∧
      (authCreateChallengeAt s.manager client 1049 random).2.1 = .rateLimited := by
  have hwrong : exec step ⟨start, 0⟩ (.create client 1000 random ::
      .replicate 5 (wrongVerify 1020)) = some ⟨ShortChallenge.manager 5 1050 [], 1020⟩ := by
    decide +kernel
  have hstep : step ⟨ShortChallenge.manager 4 0 rightPin, 1020⟩ (wrongVerify 1020) =
      some ⟨ShortChallenge.manager 5 1050 [], 1020⟩ := by decide +kernel
  have hbetween : ∃ s, exec (checked (fun s call => decide (KeepsLockout client s call)) step)
      ⟨ShortChallenge.manager 5 1050 [], 1020⟩ ShortChallenge.between = some s ∧
      s.clock ≤ 1049 := exists_of_exec (by decide +kernel)
  obtain ⟨s, hexec, hclock⟩ := hbetween
  have hrun : Run step (KeepsLockout client) ⟨ShortChallenge.manager 5 1050 [], 1020⟩
      ShortChallenge.between s :=
    Run.of_exec_checked (I := fun _ => True) (fun _ _ _ _ _ _ => trivial)
      (fun _ _ _ hcheck => of_decide_eq_true hcheck) trivial hexec
  refine ⟨s, ?_, create_rateLimited reachesLimit_fifth hstep hrun hclock (by decide) (by decide)
    reachesTable_client⟩
  rw [exec_append, hwrong, Option.bind_some]
  exact exec_of_run hrun

open ShortChallenge in
/-- A verify at the moment the challenge expires erases the lock-out that still has
20 seconds to run, and the next create hands out a new PIN. -/
theorem create_ok_within_lockout :
    ∃ s s₁ s₂ : State,
      authManagerCreate 30 1800 = some start ∧
      exec step ⟨start, 0⟩ (.create client 1000 random :: .replicate 4 (wrongVerify 1020)) =
        some s ∧
      ReachesLimit s.manager client challengeId wrongPin 1020 random ∧
      step s (wrongVerify 1020) = some s₁ ∧
      exec step s₁ [wrongVerify 1030] = some s₂ ∧
      s₂.clock ≤ 1030 ∧ (1030 : UInt64) < 1020 + AUTH_RATE_LIMIT_SECONDS ∧
      ReachesTable client random ∧
      (authCreateChallengeAt s₂.manager client 1030 random).2.1 = .ok :=
  ⟨⟨ShortChallenge.manager 4 0 rightPin, 1020⟩, ⟨ShortChallenge.manager 5 1050 [], 1020⟩,
    ⟨start, 1030⟩, by decide +kernel, by decide +kernel, reachesLimit_fifth,
    by decide +kernel, by decide +kernel, by decide, by decide, reachesTable_client,
    by decide +kernel⟩

end LocalSend.Auth
