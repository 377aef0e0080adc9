import LocalSend.Model.Auth
import Mathlib.Data.List.GetD
import Mathlib.Data.List.Nodup
import Mathlib.Tactic.Common

/-! # The challenge table

What each call does to the table, said once for each call, and what it keeps: a free record
is all zero, and no address has two records.
-/

namespace LocalSend.Auth

/-- The record belongs to the address. -/
def Challenge.ownedBy (challenge : Challenge) (clientAddress : CString) : Bool :=
  challenge.occupied && challenge.clientAddress == clientAddress

theorem Challenge.ownedBy_iff {challenge : Challenge} {clientAddress : CString} :
    challenge.ownedBy clientAddress = true ↔
      challenge.occupied = true ∧ challenge.clientAddress = clientAddress := by
  simp [Challenge.ownedBy]

/-- Free records are cleared, and an address has at most one record. -/
structure Tidy (challenges : List Challenge) : Prop where
  free : ∀ (i : ℕ) challenge, challenges[i]? = some challenge → challenge.occupied = false →
    challenge = .cleared
  alone : ∀ (i j : ℕ) challenge other, challenges[i]? = some challenge →
    challenges[j]? = some other → challenge.occupied = true → other.occupied = true →
    challenge.clientAddress = other.clientAddress → i = j

variable {challenges : List Challenge} {clientAddress challengeId pin : CString} {now : UInt64}

theorem tidy_replicate (count : ℕ) : Tidy (.replicate count .cleared) := by
  constructor
  · intro i challenge hget _
    exact List.eq_of_mem_replicate (List.mem_of_getElem? hget)
  · intro i j challenge other hget _ hoccupied
    rw [List.eq_of_mem_replicate (List.mem_of_getElem? hget)] at hoccupied
    cases hoccupied

/-- Erasing records keeps a table tidy. -/
theorem Tidy.erase (h : Tidy challenges) (erased : Challenge → Bool) :
    Tidy (challenges.map fun challenge => if erased challenge then .cleared else challenge) := by
  constructor
  · intro i challenge hget hfree
    rw [List.getElem?_map] at hget
    obtain ⟨before, hbefore, rfl⟩ := Option.map_eq_some_iff.mp hget
    by_cases herased : erased before = true
    · rw [if_pos herased]
    · rw [if_neg herased] at hfree ⊢
      exact h.free i before hbefore hfree
  · intro i j challenge other hget hget' hoccupied hoccupied' haddress
    rw [List.getElem?_map] at hget hget'
    obtain ⟨before, hbefore, rfl⟩ := Option.map_eq_some_iff.mp hget
    obtain ⟨before', hbefore', rfl⟩ := Option.map_eq_some_iff.mp hget'
    split at hoccupied
    · cases hoccupied
    · split at hoccupied'
      · cases hoccupied'
      · simp_all only [Bool.not_eq_true, Bool.false_eq_true, if_false]
        exact h.alone i j before before' hbefore hbefore' hoccupied hoccupied' haddress

/-- A record may be overwritten by one of the same address, or erased. -/
theorem Tidy.set {slot : ℕ} {challenge : Challenge} (h : Tidy challenges)
    (hfree : challenge.occupied = false → challenge = .cleared)
    (haddress : challenge.occupied = true → ∀ (j : ℕ) other, challenges[j]? = some other →
      other.occupied = true → other.clientAddress = challenge.clientAddress → j = slot) :
    Tidy (challenges.set slot challenge) := by
  constructor
  · intro i found hget
    rw [List.getElem?_set] at hget
    split at hget
    · split at hget
      · cases hget
        exact hfree
      · cases hget
    · exact h.free i found hget
  · intro i j found other hget hget' hoccupied hoccupied' hsame
    rw [List.getElem?_set] at hget hget'
    split at hget <;> split at hget'
    · rename_i hi hj
      exact hi.symm.trans hj
    · rename_i hi hj
      split at hget
      · cases hget
        exact hi.symm.trans (haddress hoccupied j other hget' hoccupied' hsame.symm).symm
      · cases hget
    · rename_i hi hj
      split at hget'
      · cases hget'
        exact (haddress hoccupied' i found hget hoccupied hsame).trans hj
      · cases hget'
    · exact h.alone i j found other hget hget' hoccupied hoccupied' hsame

/-! ## The scan -/

/-- The table without the records of an address. -/
def withoutOwn (challenges : List Challenge) (clientAddress : CString) : List Challenge :=
  challenges.map fun challenge =>
    if challenge.ownedBy clientAddress then .cleared else challenge

theorem withoutOwn_cons (challenge : Challenge) (challenges : List Challenge)
    (clientAddress : CString) :
    withoutOwn (challenge :: challenges) clientAddress =
      (if challenge.ownedBy clientAddress then .cleared else challenge) ::
        withoutOwn challenges clientAddress := rfl

/-- A scan that is stopped has found a record that is still rate limited. -/
theorem exists_limited_of_scan
    (h : (scanChallenges clientAddress now challenges).limited = true) :
    ∃ (i : ℕ) (challenge : Challenge), challenges[i]? = some challenge ∧
      challenge.ownedBy clientAddress = true ∧ now < challenge.rateLimitedUntil := by
  induction challenges with
  | nil => cases h
  | cons candidate rest ih =>
      rw [scanChallenges] at h
      split at h
      · rename_i hstop
        simp only [Bool.and_eq_true, decide_eq_true_eq] at hstop
        exact ⟨0, candidate, rfl, by simp [Challenge.ownedBy, hstop.1], hstop.2⟩
      · obtain ⟨i, challenge, hget, hlimited⟩ := ih h
        exact ⟨i + 1, challenge, hget, hlimited⟩

/-- A scan that is not stopped erases every record of the address. -/
theorem scanChallenges_erased
    (h : (scanChallenges clientAddress now challenges).limited = false) :
    (scanChallenges clientAddress now challenges).challenges =
        withoutOwn challenges clientAddress ∧
      (scanChallenges clientAddress now challenges).slot =
        (withoutOwn challenges clientAddress).findIdx? fun challenge => !challenge.occupied := by
  induction challenges with
  | nil => exact ⟨rfl, rfl⟩
  | cons candidate rest ih =>
      rw [scanChallenges] at h ⊢
      split at h
      · cases h
      · rename_i hgo
        obtain ⟨hrest, hslot⟩ := ih h
        rw [if_neg hgo]
        rw [withoutOwn_cons, List.findIdx?_cons, ← hslot, ← hrest]
        refine ⟨rfl, ?_⟩
        change (if (if candidate.ownedBy clientAddress = true then Challenge.cleared
          else candidate).occupied = true then
            (scanChallenges clientAddress now rest).slot.map (· + 1) else some 0) = _
        generalize (if candidate.ownedBy clientAddress = true then Challenge.cleared
          else candidate) = kept
        cases kept.occupied <;> rfl

/-- A scan that is stopped has changed nothing, if the address has one record. -/
theorem scanChallenges_same (htidy : Tidy challenges)
    (h : (scanChallenges clientAddress now challenges).limited = true) :
    (scanChallenges clientAddress now challenges).challenges = challenges := by
  induction challenges with
  | nil => rfl
  | cons candidate rest ih =>
      have htidy' : Tidy rest := by
        constructor
        · intro i challenge hget
          exact htidy.free (i + 1) challenge hget
        · intro i j challenge other hget hget' hoccupied hoccupied' hsame
          have heq := htidy.alone (i + 1) (j + 1) challenge other hget hget' hoccupied hoccupied'
            hsame
          omega
      rw [scanChallenges] at h ⊢
      split at h
      · rename_i hstop
        rw [if_pos hstop]
      · rename_i hgo
        rw [if_neg hgo]
        have hother : candidate.ownedBy clientAddress = false := by
          by_contra hown
          obtain ⟨i, challenge, hget, howned, -⟩ := exists_limited_of_scan h
          have hown' := Challenge.ownedBy_iff.mp (Bool.not_eq_false _ ▸ hown)
          have howned' := Challenge.ownedBy_iff.mp howned
          have heq := htidy.alone 0 (i + 1) candidate challenge rfl hget hown'.1 howned'.1
            (hown'.2.trans howned'.2.symm)
          omega
        simp only [Challenge.ownedBy] at hother
        simp only [hother, ih htidy' h, Bool.false_eq_true, if_false]

/-! ## What a create does -/

/-- The table behind the clean-up. -/
def unexpired (challenges : List Challenge) (now : UInt64) : List Challenge :=
  challenges.map fun challenge => if challenge.stale now then .cleared else challenge

theorem cleanupExpired_challenges (manager : Manager) (now : UInt64) :
    (cleanupExpired manager now).challenges = unexpired manager.challenges now := rfl

theorem Tidy.unexpired (h : Tidy challenges) (now : UInt64) :
    Tidy (unexpired challenges now) := h.erase fun challenge => challenge.stale now

/-- The record of a challenge that has just been issued. -/
def Challenge.issued (clientAddress challengeId pin : CString) (expiresAt : UInt64) : Challenge :=
  ⟨true, false, 0, expiresAt, 0, clientAddress, challengeId, pin⟩

/-- A create is refused on its arguments or for want of random bytes, refused behind the
clean-up, or issues a challenge in the place of the one the address had. -/
inductive Created (manager : Manager) (clientAddress : CString) (now : UInt64) (random : Random) :
    Manager × AuthResult × Option ChallengeResult → Prop
  | refused (result : AuthResult) : Created manager clientAddress now random (manager, result, none)
  | kept (result : AuthResult) : Created manager clientAddress now random
      (cleanupExpired manager now, result, none)
  | issued (challengeId pin : CString) (slot : ℕ)
      (haddress : validClientAddress clientAddress = true)
      (hid : generateHex random.idBytes (AUTH_CHALLENGE_ID_HEX_BYTES / 2) = some challengeId)
      (hpin : generatePin random.pinDraws = some pin)
      (hfree : (withoutOwn (unexpired manager.challenges now) clientAddress)[slot]? =
        some .cleared) :
      Created manager clientAddress now random
        ({ cleanupExpired manager now with
            challenges := (withoutOwn (unexpired manager.challenges now) clientAddress).set slot
              (.issued clientAddress challengeId pin (now + manager.pinTtlSeconds.toUInt64)) },
          .ok, some ⟨challengeId, pin, manager.pinTtlSeconds⟩)

/-- With no free record, the address has none. -/
theorem withoutOwn_of_full
    (h : (withoutOwn challenges clientAddress).findIdx? (fun challenge => !challenge.occupied) =
      none) : withoutOwn challenges clientAddress = challenges := by
  rw [List.findIdx?_eq_none_iff] at h
  refine (List.map_congr_left ?_).trans (List.map_id _)
  intro challenge hmem
  have hoccupied := h _ (List.mem_map_of_mem hmem)
  by_cases hown : challenge.ownedBy clientAddress = true
  · rw [if_pos hown] at hoccupied
    cases hoccupied
  · exact if_neg hown

theorem authCreateChallengeAt_spec {manager : Manager} (htidy : Tidy manager.challenges)
    (clientAddress : CString) (now : UInt64) (random : Random) :
    Created manager clientAddress now random
      (authCreateChallengeAt manager clientAddress now random) := by
  have htidy' := htidy.unexpired now
  unfold authCreateChallengeAt
  split
  · exact .refused _
  rename_i haddress
  split
  · rename_i challengeId pin hid hpin
    dsimp only
    rw [cleanupExpired_challenges]
    cases hlimited : (scanChallenges clientAddress now
        (unexpired manager.challenges now)).limited with
    | true =>
        rw [if_pos rfl, scanChallenges_same htidy' hlimited]
        exact .kept _
    | false =>
        obtain ⟨hchallenges, hslot⟩ := scanChallenges_erased hlimited
        rw [if_neg Bool.false_ne_true, hslot]
        split
        · rename_i hfull
          rw [hchallenges, withoutOwn_of_full hfull]
          exact .kept _
        · rename_i slot hfound
          rw [hchallenges]
          obtain ⟨hlt, hunoccupied, -⟩ := List.findIdx?_eq_some_iff_getElem.mp hfound
          have htidy'' : Tidy (withoutOwn (unexpired manager.challenges now) clientAddress) :=
            htidy'.erase fun challenge => challenge.ownedBy clientAddress
          have hget := List.getElem?_eq_getElem hlt
          have hcleared := htidy''.free slot _ hget (by simpa using hunoccupied)
          rw [hcleared] at hget
          rw [List.modify_eq_set_getElem?, hget]
          exact .issued challengeId pin slot (not_not.mp haddress) hid hpin hget
  · exact .refused _

/-- A record behind the clean-up is one from before it. -/
theorem getElem?_unexpired {i : ℕ} {challenge : Challenge}
    (hget : (unexpired challenges now)[i]? = some challenge)
    (hoccupied : challenge.occupied = true) : challenges[i]? = some challenge := by
  rw [unexpired, List.getElem?_map] at hget
  obtain ⟨before, hbefore, rfl⟩ := Option.map_eq_some_iff.mp hget
  split at hoccupied
  · cases hoccupied
  · rename_i hfresh
    rw [if_neg hfresh]
    exact hbefore

/-- The clean-up spares what has not expired. -/
theorem unexpired_getElem? {i : ℕ} {challenge : Challenge}
    (hget : challenges[i]? = some challenge) (hlive : now < challenge.expiresAt) :
    (unexpired challenges now)[i]? = some challenge := by
  rw [unexpired, List.getElem?_map, hget, Option.map_some, if_neg]
  simp [Challenge.stale, UInt64.not_le.mpr hlive]

/-- The records a create leaves alone are those of other addresses. -/
theorem getElem?_withoutOwn {i : ℕ} {challenge : Challenge}
    (hget : (withoutOwn challenges clientAddress)[i]? = some challenge)
    (hoccupied : challenge.occupied = true) :
    challenges[i]? = some challenge ∧ challenge.clientAddress ≠ clientAddress := by
  rw [withoutOwn, List.getElem?_map] at hget
  obtain ⟨before, hbefore, rfl⟩ := Option.map_eq_some_iff.mp hget
  split at hoccupied
  · cases hoccupied
  · rename_i hother
    rw [if_neg hother]
    exact ⟨hbefore, fun hsame => hother (Challenge.ownedBy_iff.mpr ⟨hoccupied, hsame⟩)⟩

theorem withoutOwn_getElem? {i : ℕ} {challenge : Challenge}
    (hget : challenges[i]? = some challenge) (hother : challenge.clientAddress ≠ clientAddress) :
    (withoutOwn challenges clientAddress)[i]? = some challenge := by
  rw [withoutOwn, List.getElem?_map, hget, Option.map_some, if_neg]
  intro howned
  exact hother (Challenge.ownedBy_iff.mp howned).2

theorem Tidy.issued (h : Tidy challenges) (now : UInt64) (slot : ℕ)
    (clientAddress challengeId pin : CString) (expiresAt : UInt64) :
    Tidy ((withoutOwn (Auth.unexpired challenges now) clientAddress).set slot
      (.issued clientAddress challengeId pin expiresAt)) := by
  refine ((h.unexpired now).erase _).set ?_ ?_
  · intro hfree
    cases hfree
  · intro _ j other hget hoccupied hsame
    exact absurd hsame (getElem?_withoutOwn hget hoccupied).2

/-! ## What a verify does -/

/-- The arguments a verify looks at the table with. -/
structure WellFormed (clientAddress challengeId pin : CString) : Prop where
  address : validClientAddress clientAddress = true
  id : challengeId.length = AUTH_CHALLENGE_ID_HEX_BYTES
  pin : pin.length = AUTH_PIN_DIGITS

/-- The record at `slot` is the one a verify of the address works on. -/
structure Finds (challenges : List Challenge) (clientAddress challengeId : CString) (slot : ℕ)
    (challenge : Challenge) : Prop where
  found : findChallenge challenges challengeId = some slot
  get : challenges[slot]? = some challenge
  occupied : challenge.occupied = true
  id : constantTimeEqual challenge.challengeId challengeId AUTH_CHALLENGE_ID_HEX_BYTES = true
  address : challenge.clientAddress = clientAddress

/-- The record a verify works on will have its PIN compared. -/
structure Challenge.Live (challenge : Challenge) (now : UInt64) : Prop where
  unused : challenge.used = false
  unexpired : now < challenge.expiresAt
  few : challenge.attempts < AUTH_MAX_ATTEMPTS

/-- The call compares a wrong PIN with the PIN of a live challenge. -/
def Manager.misses (manager : Manager) : Call → Bool
  | .verify clientAddress challengeId pin now _ =>
      match findChallenge manager.challenges challengeId with
      | none => false
      | some slot =>
          let challenge := manager.challenges.getD slot .cleared
          validClientAddress clientAddress ∧ challengeId.length = AUTH_CHALLENGE_ID_HEX_BYTES ∧
            pin.length = AUTH_PIN_DIGITS ∧ challenge.clientAddress = clientAddress ∧
            challenge.used = false ∧ now < challenge.expiresAt ∧
            challenge.attempts < AUTH_MAX_ATTEMPTS ∧
            constantTimeEqual challenge.pin pin AUTH_PIN_DIGITS = false
  | _ => false

/-- The record after a wrong PIN. -/
def Challenge.missed (challenge : Challenge) (now : UInt64) : Challenge :=
  if AUTH_MAX_ATTEMPTS ≤ challenge.attempts + 1 then
    { challenge with
      attempts := challenge.attempts + 1
      pin := []
      rateLimitedUntil := now + AUTH_RATE_LIMIT_SECONDS }
  else { challenge with attempts := challenge.attempts + 1 }

/-- The sessions once a PIN has been confirmed. -/
def confirmedSessions (sessions : List Session) (expiresAt : UInt64)
    (clientAddress token : CString) : List Session :=
  (sessions.map fun _ => Session.cleared).set 0 ⟨true, expiresAt, clientAddress, token⟩

/-- A verify finds no record of its own, or a used-up one, or one that has expired; it
compares a wrong PIN; or it has the right one, with or without a token to hand out. -/
inductive Verified (manager : Manager) (clientAddress challengeId pin : CString) (now : UInt64)
    (random : Random) : Bool → Manager × AuthResult × Option SessionResult → Prop
  | unmatched (result : AuthResult) (hresult : result ≠ .ok)
      (hnone : WellFormed clientAddress challengeId pin → ∀ slot challenge,
        ¬Finds manager.challenges clientAddress challengeId slot challenge) :
      Verified manager clientAddress challengeId pin now random false (manager, result, none)
  | spent (result : AuthResult) (hresult : result ≠ .ok) (slot : ℕ) (challenge : Challenge)
      (hformed : WellFormed clientAddress challengeId pin)
      (hfinds : Finds manager.challenges clientAddress challengeId slot challenge)
      (hspent : challenge.used = true ∨ AUTH_MAX_ATTEMPTS ≤ challenge.attempts) :
      Verified manager clientAddress challengeId pin now random false (manager, result, none)
  | expired (slot : ℕ) (challenge : Challenge)
      (hformed : WellFormed clientAddress challengeId pin)
      (hfinds : Finds manager.challenges clientAddress challengeId slot challenge)
      (hexpired : challenge.expiresAt ≤ now) :
      Verified manager clientAddress challengeId pin now random false
        ({ manager with challenges := manager.challenges.set slot .cleared }, .expired, none)
  | missed (result : AuthResult) (hresult : result ≠ .ok) (slot : ℕ) (challenge : Challenge)
      (hformed : WellFormed clientAddress challengeId pin)
      (hfinds : Finds manager.challenges clientAddress challengeId slot challenge)
      (hlive : challenge.Live now)
      (hwrong : constantTimeEqual challenge.pin pin AUTH_PIN_DIGITS = false) :
      Verified manager clientAddress challengeId pin now random true
        ({ manager with challenges := manager.challenges.set slot (challenge.missed now) },
          result, none)
  | unissued (slot : ℕ) (challenge : Challenge)
      (hformed : WellFormed clientAddress challengeId pin)
      (hfinds : Finds manager.challenges clientAddress challengeId slot challenge)
      (hright : constantTimeEqual challenge.pin pin AUTH_PIN_DIGITS = true)
      (htoken : generateHex random.tokenBytes (AUTH_TOKEN_HEX_BYTES / 2) = none) :
      Verified manager clientAddress challengeId pin now random false
        (manager, .randomFailure, none)
  | confirmed (token : CString) (slot : ℕ) (challenge : Challenge)
      (hformed : WellFormed clientAddress challengeId pin)
      (hfinds : Finds manager.challenges clientAddress challengeId slot challenge)
      (hlive : challenge.Live now)
      (hright : constantTimeEqual challenge.pin pin AUTH_PIN_DIGITS = true)
      (htoken : generateHex random.tokenBytes (AUTH_TOKEN_HEX_BYTES / 2) = some token) :
      Verified manager clientAddress challengeId pin now random false
        ({ manager with
            challenges := manager.challenges.set slot { challenge with used := true, pin := [] }
            sessions := confirmedSessions manager.sessions
              (now + manager.sessionTtlSeconds.toUInt64) clientAddress token },
          .ok, some ⟨token, manager.sessionTtlSeconds⟩)

theorem Finds.unique {slot slot' : ℕ} {challenge challenge' : Challenge}
    (h : Finds challenges clientAddress challengeId slot challenge)
    (h' : Finds challenges clientAddress challengeId slot' challenge') :
    slot' = slot ∧ challenge' = challenge := by
  have hslot := Option.some.inj (h'.found.symm.trans h.found)
  refine ⟨hslot, Option.some.inj (h'.get.symm.trans ?_)⟩
  rw [hslot]
  exact h.get

theorem exists_of_findChallenge {slot : ℕ}
    (h : findChallenge challenges challengeId = some slot) :
    ∃ challenge, challenges[slot]? = some challenge ∧ challenges.getD slot .cleared = challenge ∧
      challenge.occupied = true ∧
      constantTimeEqual challenge.challengeId challengeId AUTH_CHALLENGE_ID_HEX_BYTES = true := by
  obtain ⟨hlt, hmatch, -⟩ := List.findIdx?_eq_some_iff_getElem.mp h
  simp only [Bool.and_eq_true] at hmatch
  exact ⟨challenges[slot], List.getElem?_eq_getElem hlt, List.getD_eq_getElem _ _ hlt, hmatch⟩

theorem wellFormed_iff :
    WellFormed clientAddress challengeId pin ↔
      ¬(¬validClientAddress clientAddress = true ∨
        challengeId.length ≠ AUTH_CHALLENGE_ID_HEX_BYTES ∨ pin.length ≠ AUTH_PIN_DIGITS) := by
  constructor
  · rintro ⟨haddress, hid, hpin⟩
    simp [haddress, hid, hpin]
  · intro h
    simp only [not_or, not_not] at h
    exact ⟨h.1, h.2.1, h.2.2⟩

theorem Manager.misses_of_finds {manager : Manager} {slot : ℕ} {challenge : Challenge}
    (hformed : WellFormed clientAddress challengeId pin)
    (h : Finds manager.challenges clientAddress challengeId slot challenge) (now : UInt64)
    (random : Random) :
    manager.misses (.verify clientAddress challengeId pin now random) = true ↔
      challenge.Live now ∧ constantTimeEqual challenge.pin pin AUTH_PIN_DIGITS = false := by
  have hgetD : manager.challenges.getD slot .cleared = challenge := by
    rw [List.getD_eq_getElem?_getD, h.get, Option.getD_some]
  simp only [Manager.misses, h.found, hgetD, decide_eq_true_eq]
  constructor
  · rintro ⟨-, -, -, -, hunused, hunexpired, hfew, hwrong⟩
    exact ⟨⟨hunused, hunexpired, hfew⟩, hwrong⟩
  · rintro ⟨⟨hunused, hunexpired, hfew⟩, hwrong⟩
    exact ⟨hformed.address, hformed.id, hformed.pin, h.address, hunused, hunexpired, hfew, hwrong⟩

theorem Manager.misses_of_unmatched {manager : Manager}
    (h : WellFormed clientAddress challengeId pin → ∀ slot challenge,
      ¬Finds manager.challenges clientAddress challengeId slot challenge) (now : UInt64)
    (random : Random) :
    manager.misses (.verify clientAddress challengeId pin now random) = false := by
  unfold Manager.misses
  dsimp only
  split
  · rfl
  · rename_i slot hfound
    obtain ⟨challenge, hget, hgetD, hoccupied, hid⟩ := exists_of_findChallenge hfound
    rw [decide_eq_false_iff_not, hgetD]
    rintro ⟨haddress, hlength, hpin, hown, -⟩
    exact h ⟨haddress, hlength, hpin⟩ slot challenge ⟨hfound, hget, hoccupied, hid, hown⟩

/-- A verify that finds its record. -/
theorem verifyFound_spec {manager : Manager} {slot : ℕ} {challenge : Challenge}
    (hformed : WellFormed clientAddress challengeId pin)
    (hfinds : Finds manager.challenges clientAddress challengeId slot challenge) (now : UInt64)
    (random : Random) :
    Verified manager clientAddress challengeId pin now random
      (manager.misses (.verify clientAddress challengeId pin now random))
      (verifyFound manager slot challenge clientAddress pin now random) := by
  have hmisses := Manager.misses_of_finds hformed hfinds now random
  have hsafe : ¬(challenge.Live now ∧
      constantTimeEqual challenge.pin pin AUTH_PIN_DIGITS = false) →
      manager.misses (.verify clientAddress challengeId pin now random) = false :=
    fun hnot => Bool.eq_false_iff.mpr fun htrue => hnot (hmisses.mp htrue)
  unfold verifyFound
  dsimp only
  rw [if_neg (not_not.mpr hfinds.address)]
  split
  · rename_i hused
    rw [hsafe fun h => by simp [h.1.unused] at hused]
    exact .spent _ (by simp) slot challenge hformed hfinds (.inl hused)
  rename_i hused
  split
  · rename_i hexpired
    rw [hsafe fun h => UInt64.not_lt.mpr hexpired h.1.unexpired]
    exact .expired slot challenge hformed hfinds hexpired
  rename_i hexpired
  split
  · rename_i hspent
    rw [hsafe fun h => Nat.not_lt.mpr hspent h.1.few]
    exact .spent _ (by simp) slot challenge hformed hfinds (.inr hspent)
  rename_i hfew
  have hlive : challenge.Live now :=
    ⟨Bool.eq_false_iff.mpr hused, UInt64.not_le.mp hexpired, Nat.not_le.mp hfew⟩
  split
  · rename_i hwrong
    have hwrong' : constantTimeEqual challenge.pin pin AUTH_PIN_DIGITS = false := by
      simpa using hwrong
    rw [hmisses.mpr ⟨hlive, hwrong'⟩]
    split
    · rename_i hlimit
      have hmissed : challenge.missed now = { challenge with
          attempts := challenge.attempts + 1
          pin := []
          rateLimitedUntil := now + AUTH_RATE_LIMIT_SECONDS } := if_pos hlimit
      rw [← hmissed]
      exact .missed _ (by simp) slot challenge hformed hfinds hlive hwrong'
    · rename_i hlimit
      have hmissed : challenge.missed now =
          { challenge with attempts := challenge.attempts + 1 } := if_neg hlimit
      rw [← hmissed]
      exact .missed _ (by simp) slot challenge hformed hfinds hlive hwrong'
  rename_i hright
  have hright' : constantTimeEqual challenge.pin pin AUTH_PIN_DIGITS = true := by
    simpa using hright
  rw [hsafe fun h => by simp [hright'] at h]
  split
  · rename_i htoken
    exact .unissued slot challenge hformed hfinds hright' htoken
  · rename_i token htoken
    exact .confirmed token slot challenge hformed hfinds hlive hright' htoken

/-- The record a verify works on may be overwritten by one of its address, or erased. -/
theorem Tidy.finds_set {slot : ℕ} {challenge replaced : Challenge}
    (h : Tidy challenges)
    (hfinds : Finds challenges clientAddress challengeId slot challenge)
    (hreplaced : replaced = .cleared ∨ replaced.ownedBy clientAddress = true) :
    Tidy (challenges.set slot replaced) := by
  refine h.set ?_ ?_
  · intro hfree
    rcases hreplaced with hcleared | howned
    · exact hcleared
    · cases hfree.symm.trans (Challenge.ownedBy_iff.mp howned).1
  · intro hoccupied j other hget hoccupied' hsame
    rcases hreplaced with rfl | howned
    · cases hoccupied
    · exact h.alone j slot other challenge hget hfinds.get hoccupied' hfinds.occupied
        ((hsame.trans (Challenge.ownedBy_iff.mp howned).2).trans hfinds.address.symm)

theorem authVerifyChallengeAt_spec (manager : Manager) (clientAddress challengeId pin : CString)
    (now : UInt64) (random : Random) :
    Verified manager clientAddress challengeId pin now random
      (manager.misses (.verify clientAddress challengeId pin now random))
      (authVerifyChallengeAt manager clientAddress challengeId pin now random) := by
  have hunmatched : ∀ result : AuthResult, result ≠ .ok →
      (WellFormed clientAddress challengeId pin → ∀ slot challenge,
        ¬Finds manager.challenges clientAddress challengeId slot challenge) →
      Verified manager clientAddress challengeId pin now random
        (manager.misses (.verify clientAddress challengeId pin now random))
        (manager, result, none) := by
    intro result hresult hnone
    rw [Manager.misses_of_unmatched hnone]
    exact .unmatched result hresult hnone
  unfold authVerifyChallengeAt
  by_cases hformed : WellFormed clientAddress challengeId pin
  · rw [if_neg (wellFormed_iff.mp hformed)]
    split
    · rename_i hfound
      refine hunmatched _ (by simp) fun _ slot challenge hfinds => ?_
      cases hfound.symm.trans hfinds.found
    · rename_i slot hfound
      obtain ⟨challenge, hget, hgetD, hoccupied, hid⟩ := exists_of_findChallenge hfound
      rw [hgetD]
      by_cases haddress : challenge.clientAddress = clientAddress
      · exact verifyFound_spec hformed ⟨hfound, hget, hoccupied, hid, haddress⟩ now random
      · unfold verifyFound
        rw [if_pos haddress]
        refine hunmatched _ (by simp) fun _ slot' challenge' hfinds => ?_
        cases hfound.symm.trans hfinds.found
        cases hget.symm.trans hfinds.get
        exact haddress hfinds.address
  · rw [if_pos (not_not.mp (mt wellFormed_iff.mpr hformed))]
    exact hunmatched _ (by simp) fun h => absurd h hformed

end LocalSend.Auth
