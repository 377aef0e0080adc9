import LocalSend.Library.Transition
import LocalSend.Verification.Auth.Table

/-! # The challenge table and the history of calls

A run keeps a log of its calls and their answers. The table is a digest of the log: the
record of an address stands for the last challenge issued to it, and counts the wrong PINs
tried since.
-/

namespace LocalSend.Auth

open Transition

/-- A call, what it was answered, and whether it compared a wrong PIN. -/
structure Entry where
  call : Call
  reply : Reply
  missed : Bool
  deriving DecidableEq

/-- The manager, its clock, and the calls so far, the latest first. -/
structure Logged where
  state : State
  log : List Entry
  deriving DecidableEq

/-- One call of a run, recorded. -/
def record (logged : Logged) (call : Call) : Option Logged :=
  (step logged.state call).map fun state =>
    ⟨state, ⟨call, logged.state.manager.reply call, logged.state.manager.misses call⟩ ::
      logged.log⟩

/-- A challenge as it was issued. -/
structure Issue where
  challengeId : CString
  pin : CString
  issuedAt : UInt64
  deriving DecidableEq

/-- The challenge a call issued to the address. -/
def Entry.issue (entry : Entry) (clientAddress : CString) : Option Issue :=
  match entry.call, entry.reply.challenge with
  | .create address now _, some challenge =>
      if address = clientAddress then some ⟨challenge.challengeId, challenge.pin, now⟩ else none
  | _, _ => none

/-- The PIN a call tried for the address on a challenge. -/
def Entry.tried (entry : Entry) (clientAddress challengeId : CString) : Option CString :=
  match entry.call with
  | .verify address id pin _ _ =>
      if address = clientAddress ∧ id = challengeId then some pin else none
  | _ => none

/-- The call confirmed the challenge. -/
def Entry.confirms (entry : Entry) (challengeId : CString) : Bool :=
  match entry.call with
  | .verify _ id _ _ _ => id = challengeId ∧ entry.reply.result = .ok
  | _ => false

/-- The challenge issued by the most recent successful create for the address. -/
def lastIssue (clientAddress : CString) : List Entry → Option Issue
  | [] => none
  | entry :: log =>
      match entry.issue clientAddress with
      | some issue => some issue
      | none => lastIssue clientAddress log

/-- The PINs the address has tried on a challenge since its last one was issued. -/
def triedSince (clientAddress challengeId : CString) : List Entry → List CString
  | [] => []
  | entry :: log =>
      match entry.issue clientAddress with
      | some _ => []
      | none => (entry.tried clientAddress challengeId).toList ++
          triedSince clientAddress challengeId log

/-- Some call has confirmed the challenge. -/
def confirmed (challengeId : CString) (log : List Entry) : Bool :=
  log.any fun entry => entry.confirms challengeId

/-- The identifiers handed out so far. -/
def issuedIds (log : List Entry) : List CString :=
  log.filterMap fun entry => entry.reply.challenge.map ChallengeResult.challengeId

/-- A PIN of the right length other than the one asked for. -/
def wrongPin (pin tried : CString) : Bool := tried.length = AUTH_PIN_DIGITS ∧ tried ≠ pin

/-- By the history, the address can confirm the challenge with this PIN now; `wrong` says
which of the PINs tried before count as wrong. -/
def Confirmable (wrong : CString → CString → Bool) (pinTtlSeconds : UInt32) (log : List Entry)
    (clientAddress challengeId pin : CString) (now : UInt64) : Prop :=
  ∃ issue, lastIssue clientAddress log = some issue ∧ issue.challengeId = challengeId ∧
    issue.pin = pin ∧ now < issue.issuedAt + pinTtlSeconds.toUInt64 ∧
    (triedSince clientAddress challengeId log).countP (wrong pin) < AUTH_MAX_ATTEMPTS ∧
    confirmed challengeId log = false

/-- The random source fills the bytes of an identifier, and the identifier is new. -/
def Supplied (logged : Logged) : Call → Prop
  | .create _ _ random => ∀ bytes, random.idBytes = some bytes →
      AUTH_CHALLENGE_ID_HEX_BYTES / 2 ≤ bytes.length ∧
        bytesToHex (bytes.take (AUTH_CHALLENGE_ID_HEX_BYTES / 2)) ∉ issuedIds logged.log
  | _ => True

variable {log : List Entry} {clientAddress challengeId pin : CString} {now : UInt64}

/-! ## Strings of the source -/

theorem constantTimeEqual_iff {left right : CString} {size : ℕ} (hleft : left.length = size)
    (hright : right.length = size) : constantTimeEqual left right size = true ↔ left = right := by
  simp only [constantTimeEqual, List.all_eq_true, List.mem_range, beq_iff_eq]
  constructor
  · intro h
    apply List.ext_getElem (hleft.trans hright.symm)
    intro i hi hi'
    have hget := h i (hleft ▸ hi)
    rwa [List.getD_eq_getElem _ _ hi, List.getD_eq_getElem _ _ hi'] at hget
  · rintro rfl i -
    rfl

theorem generatePin_length {draws : List (Option UInt32)} (h : generatePin draws = some pin) :
    pin.length = AUTH_PIN_DIGITS := by
  induction draws with
  | nil => cases h
  | cons draw draws ih =>
      cases draw with
      | none => cases h
      | some value =>
          rw [generatePin] at h
          split at h
          · exact ih h
          · cases h
            rfl

/-! ## One more entry -/

theorem lastIssue_cons {entry : Entry} (h : entry.issue clientAddress = none) :
    lastIssue clientAddress (entry :: log) = lastIssue clientAddress log := by
  simp only [lastIssue, h]

theorem triedSince_cons {entry : Entry} (h : entry.issue clientAddress = none) :
    triedSince clientAddress challengeId (entry :: log) =
      (entry.tried clientAddress challengeId).toList ++
        triedSince clientAddress challengeId log := by
  simp only [triedSince, h]

theorem confirmed_cons (entry : Entry) :
    confirmed challengeId (entry :: log) =
      (entry.confirms challengeId || confirmed challengeId log) := rfl

/-- A call that hands out no challenge. -/
theorem Entry.issue_of_none {entry : Entry} (h : entry.reply.challenge = none)
    (clientAddress : CString) : entry.issue clientAddress = none := by
  unfold Entry.issue
  split
  · rename_i hsome
    cases h.symm.trans hsome
  · rfl

/-! ## Records and issues -/

/-- The record stands for the last challenge issued to its address. -/
structure Challenge.Mirrors (challenge : Challenge) (pinTtlSeconds : UInt32) (log : List Entry)
    (issue : Issue) : Prop where
  last : lastIssue challenge.clientAddress log = some issue
  id : challenge.challengeId = issue.challengeId
  expires : challenge.expiresAt = issue.issuedAt + pinTtlSeconds.toUInt64
  used : challenge.used = confirmed issue.challengeId log
  attempts : challenge.used = false → challenge.attempts = min AUTH_MAX_ATTEMPTS
    ((triedSince challenge.clientAddress issue.challengeId log).countP (wrongPin issue.pin))
  pin : challenge.used = false → challenge.attempts < AUTH_MAX_ATTEMPTS →
    challenge.pin = issue.pin

/-- A call that is no guess at the record's challenge leaves it standing. -/
theorem Challenge.Mirrors.cons {challenge : Challenge} {pinTtlSeconds : UInt32} {issue : Issue}
    {entry : Entry} (h : challenge.Mirrors pinTtlSeconds log issue)
    (hissue : entry.issue challenge.clientAddress = none)
    (hconfirms : entry.confirms issue.challengeId = false)
    (htried : challenge.used = false → challenge.attempts < AUTH_MAX_ATTEMPTS → ∀ tried,
      entry.tried challenge.clientAddress issue.challengeId = some tried →
      wrongPin issue.pin tried = false) :
    challenge.Mirrors pinTtlSeconds (entry :: log) issue := by
  refine ⟨(lastIssue_cons hissue).trans h.last, h.id, h.expires, ?_, ?_, h.pin⟩
  · rw [confirmed_cons, hconfirms, Bool.false_or]
    exact h.used
  · intro hunused
    have hattempts := h.attempts hunused
    rw [triedSince_cons hissue, List.countP_append]
    rcases Nat.lt_or_ge challenge.attempts AUTH_MAX_ATTEMPTS with hfew | hspent
    · have hnone : ((entry.tried challenge.clientAddress issue.challengeId).toList).countP
          (wrongPin issue.pin) = 0 := by
        cases hentry : entry.tried challenge.clientAddress issue.challengeId with
        | none => rfl
        | some tried => simp [htried hunused hfew tried hentry]
      rw [hnone, Nat.zero_add]
      exact hattempts
    · omega

/-- What the table and the log have to do with each other. -/
structure Ledger (pinTtlSeconds : UInt32) (logged : Logged) : Prop where
  tidy : Tidy logged.state.manager.challenges
  ttl : logged.state.manager.pinTtlSeconds = pinTtlSeconds
  mirrors : ∀ (i : ℕ) challenge, logged.state.manager.challenges[i]? = some challenge →
    challenge.occupied = true → ∃ issue, challenge.Mirrors pinTtlSeconds logged.log issue
  live : ∀ clientAddress issue, lastIssue clientAddress logged.log = some issue →
    logged.state.clock < issue.issuedAt + pinTtlSeconds.toUInt64 →
    ∃ (i : ℕ) (challenge : Challenge), logged.state.manager.challenges[i]? = some challenge ∧
      challenge.ownedBy clientAddress = true
  owner : ∀ clientAddress other issue issue', lastIssue clientAddress logged.log = some issue →
    lastIssue other logged.log = some issue' → issue.challengeId = issue'.challengeId →
    clientAddress = other
  formed : ∀ clientAddress issue, lastIssue clientAddress logged.log = some issue →
    WellFormed clientAddress issue.challengeId issue.pin ∧
      issue.challengeId ∈ issuedIds logged.log
  confirmed : ∀ challengeId, confirmed challengeId logged.log = true →
    challengeId ∈ issuedIds logged.log

variable {pinTtlSeconds : UInt32} {logged : Logged}

/-- The record of the address that was issued the challenge is the one a verify works on. -/
theorem Ledger.finds {i : ℕ} {challenge : Challenge} {issue : Issue}
    (h : Ledger pinTtlSeconds logged)
    (hget : logged.state.manager.challenges[i]? = some challenge)
    (hoccupied : challenge.occupied = true)
    (hmirrors : challenge.Mirrors pinTtlSeconds logged.log issue) :
    Finds logged.state.manager.challenges challenge.clientAddress issue.challengeId i
      challenge := by
  have hformed := (h.formed _ _ hmirrors.last).1
  have hmatch : constantTimeEqual challenge.challengeId issue.challengeId
      AUTH_CHALLENGE_ID_HEX_BYTES = true :=
    (constantTimeEqual_iff (hmirrors.id ▸ hformed.id) hformed.id).mpr hmirrors.id
  have hsome : (findChallenge logged.state.manager.challenges issue.challengeId).isSome = true := by
    rw [findChallenge, List.findIdx?_isSome, List.any_eq_true]
    exact ⟨challenge, List.mem_of_getElem? hget, by simp [hoccupied, hmatch]⟩
  obtain ⟨slot, hslot⟩ := Option.isSome_iff_exists.mp hsome
  obtain ⟨other, hother, -, hoccupied', hid⟩ := exists_of_findChallenge hslot
  obtain ⟨issue', hmirrors'⟩ := h.mirrors slot other hother hoccupied'
  have hformed' := (h.formed _ _ hmirrors'.last).1
  have hsame := (constantTimeEqual_iff (hmirrors'.id ▸ hformed'.id) hformed.id).mp hid
  have haddress := h.owner _ _ issue' issue hmirrors'.last hmirrors.last
    (hmirrors'.id.symm.trans hsame)
  obtain rfl := h.tidy.alone slot i other challenge hother hget hoccupied' hoccupied haddress
  exact ⟨hslot, hget, hoccupied, hmatch, rfl⟩

/-- A verify works on the record of the issue it names. -/
theorem Ledger.mirrors_of_finds {slot : ℕ} {challenge : Challenge}
    (h : Ledger pinTtlSeconds logged) (hid : challengeId.length = AUTH_CHALLENGE_ID_HEX_BYTES)
    (hfinds : Finds logged.state.manager.challenges clientAddress challengeId slot challenge) :
    ∃ issue, challenge.Mirrors pinTtlSeconds logged.log issue ∧
      issue.challengeId = challengeId := by
  obtain ⟨issue, hmirrors⟩ := h.mirrors slot challenge hfinds.get hfinds.occupied
  have hformed := (h.formed _ _ hmirrors.last).1
  have hsame := (constantTimeEqual_iff (hmirrors.id ▸ hformed.id) hid).mp hfinds.id
  exact ⟨issue, hmirrors, hmirrors.id.symm.trans hsame⟩

/-- A call that issues no challenge keeps the ledger if the records that stay still stand,
and none is lost before it expires. -/
theorem Ledger.unissued {manager : Manager} {entry : Entry} (h : Ledger pinTtlSeconds logged)
    (hclock : logged.state.clock ≤ now) (hnone : entry.reply.challenge = none)
    (hconfirms : ∀ challengeId, entry.confirms challengeId = true →
      challengeId ∈ issuedIds logged.log)
    (httl : manager.pinTtlSeconds = logged.state.manager.pinTtlSeconds)
    (htidy : Tidy manager.challenges)
    (hmirrors : ∀ (i : ℕ) challenge, manager.challenges[i]? = some challenge →
      challenge.occupied = true →
      ∃ issue, challenge.Mirrors pinTtlSeconds (entry :: logged.log) issue)
    (hkept : ∀ (i : ℕ) challenge issue, logged.state.manager.challenges[i]? = some challenge →
      challenge.occupied = true → challenge.Mirrors pinTtlSeconds logged.log issue →
      now < issue.issuedAt + pinTtlSeconds.toUInt64 →
      ∃ (j : ℕ) (other : Challenge), manager.challenges[j]? = some other ∧
        other.ownedBy challenge.clientAddress = true) :
    Ledger pinTtlSeconds ⟨⟨manager, now⟩, entry :: logged.log⟩ := by
  have hlast : ∀ clientAddress, lastIssue clientAddress (entry :: logged.log) =
      lastIssue clientAddress logged.log :=
    fun clientAddress => lastIssue_cons (entry.issue_of_none hnone clientAddress)
  have hids : issuedIds (entry :: logged.log) = issuedIds logged.log := by
    simp [issuedIds, hnone]
  refine ⟨htidy, httl.trans h.ttl, hmirrors, ?_, ?_, ?_, ?_⟩
  · intro clientAddress issue hissue hlive
    rw [hlast] at hissue
    obtain ⟨i, challenge, hget, howned⟩ := h.live clientAddress issue hissue
      (UInt64.lt_of_le_of_lt hclock hlive)
    obtain ⟨hoccupied, rfl⟩ := Challenge.ownedBy_iff.mp howned
    obtain ⟨issue', hmirrors'⟩ := h.mirrors i challenge hget hoccupied
    obtain rfl : issue = issue' := Option.some.inj (hissue.symm.trans hmirrors'.last)
    exact hkept i challenge issue hget hoccupied hmirrors' hlive
  · simp only [hlast]
    exact h.owner
  · simp only [hlast, hids]
    exact h.formed
  · intro challengeId hconfirmed
    rw [hids]
    rw [confirmed_cons, Bool.or_eq_true] at hconfirmed
    rcases hconfirmed with hentry | hlog
    · exact hconfirms challengeId hentry
    · exact h.confirmed challengeId hlog

/-! ## A verify -/

/-- The entry of a verify. -/
def verifyEntry (clientAddress challengeId pin : CString) (now : UInt64) (random : Random)
    (missed : Bool) (answer : AuthResult × Option SessionResult) : Entry :=
  ⟨.verify clientAddress challengeId pin now random, ⟨answer.1, none, answer.2⟩, missed⟩

theorem verifyEntry_tried {random : Random} {missed : Bool}
    {answer : AuthResult × Option SessionResult} {other id tried : CString}
    (h : (verifyEntry clientAddress challengeId pin now random missed answer).tried other id =
      some tried) : clientAddress = other ∧ challengeId = id ∧ pin = tried := by
  simp only [verifyEntry, Entry.tried] at h
  split at h
  · rename_i hsame
    exact ⟨hsame.1, hsame.2, Option.some.inj h⟩
  · cases h

theorem verifyEntry_confirms {random : Random} {missed : Bool}
    {answer : AuthResult × Option SessionResult} {id : CString}
    (h : (verifyEntry clientAddress challengeId pin now random missed answer).confirms id = true) :
    challengeId = id ∧ answer.1 = .ok := of_decide_eq_true h

/-- A wrong PIN changes the count, and at the limit erases the PIN. -/
theorem Challenge.missed_eq (challenge : Challenge) (now : UInt64) :
    ∃ pin rateLimitedUntil, challenge.missed now =
      { challenge with attempts := challenge.attempts + 1, pin, rateLimitedUntil } ∧
      (challenge.attempts + 1 < AUTH_MAX_ATTEMPTS → pin = challenge.pin) := by
  unfold Challenge.missed
  split
  · rename_i hlimit
    exact ⟨_, _, rfl, fun hfew => absurd hlimit (Nat.not_le.mpr hfew)⟩
  · exact ⟨_, _, rfl, fun _ => rfl⟩

/-- The wrong PIN is counted. -/
theorem Challenge.Mirrors.missed {challenge : Challenge} {issue : Issue} {random : Random}
    {missed : Bool} {result : AuthResult} (h : challenge.Mirrors pinTtlSeconds log issue)
    (hpin : pin.length = AUTH_PIN_DIGITS) (haddress : challenge.clientAddress = clientAddress)
    (hlive : challenge.Live now) (hid : issue.challengeId = challengeId) (hresult : result ≠ .ok)
    (hwrong : constantTimeEqual challenge.pin pin AUTH_PIN_DIGITS = false) :
    (challenge.missed now).Mirrors pinTtlSeconds
      (verifyEntry clientAddress challengeId pin now random missed (result, none) :: log)
      issue := by
  obtain ⟨pin', limit, hmissed, hkept⟩ := challenge.missed_eq now
  have hissue : (verifyEntry clientAddress challengeId pin now random missed
      (result, none)).issue challenge.clientAddress = none := Entry.issue_of_none rfl _
  have hcounts : wrongPin issue.pin pin = true := by
    have hne : pin ≠ issue.pin := by
      rw [← h.pin hlive.unused hlive.few]
      rintro rfl
      cases hwrong.symm.trans ((constantTimeEqual_iff hpin hpin).mpr rfl)
    simp [wrongPin, hpin, hne]
  have htried : (verifyEntry clientAddress challengeId pin now random missed
      (result, none)).tried challenge.clientAddress issue.challengeId = some pin :=
    if_pos ⟨haddress.symm, hid.symm⟩
  rw [hmissed]
  refine ⟨(lastIssue_cons hissue).trans h.last, h.id, h.expires, ?_, ?_, ?_⟩
  · rw [confirmed_cons, Bool.eq_false_iff.mpr fun htrue => hresult (verifyEntry_confirms htrue).2,
      Bool.false_or]
    exact h.used
  · intro hunused
    have hattempts := h.attempts hunused
    have hfew := hlive.few
    rw [triedSince_cons hissue, List.countP_append, htried]
    simp only [Option.toList_some, List.countP_singleton, hcounts, if_true]
    omega
  · intro hunused hfew
    exact (hkept hfew).trans (h.pin hunused hlive.few)

/-- The challenge is used up. -/
theorem Challenge.Mirrors.confirmed {challenge : Challenge} {issue : Issue} {random : Random}
    {missed : Bool} {session : Option SessionResult}
    (h : challenge.Mirrors pinTtlSeconds log issue) (hid : issue.challengeId = challengeId) :
    ({ challenge with used := true, pin := [] } : Challenge).Mirrors pinTtlSeconds
      (verifyEntry clientAddress challengeId pin now random missed (.ok, session) :: log)
      issue := by
  have hissue : (verifyEntry clientAddress challengeId pin now random missed
      (.ok, session)).issue challenge.clientAddress = none := Entry.issue_of_none rfl _
  have hconfirms : (verifyEntry clientAddress challengeId pin now random missed
      (.ok, session)).confirms issue.challengeId = true := decide_eq_true ⟨hid.symm, rfl⟩
  refine ⟨(lastIssue_cons hissue).trans h.last, h.id, h.expires, ?_, ?_, ?_⟩
  · rw [confirmed_cons, hconfirms, Bool.true_or]
  · intro hunused
    cases hunused
  · intro hunused
    cases hunused

/-- A verify that is refused, and is no wrong guess at a challenge that counts them. -/
theorem Ledger.verify_same {result : AuthResult} {random : Random} {missed : Bool}
    (h : Ledger pinTtlSeconds logged) (hclock : logged.state.clock ≤ now) (hresult : result ≠ .ok)
    (hguess : ∀ (i : ℕ) challenge issue, logged.state.manager.challenges[i]? = some challenge →
      challenge.occupied = true → challenge.Mirrors pinTtlSeconds logged.log issue →
      challenge.clientAddress = clientAddress → issue.challengeId = challengeId →
      challenge.used = false → challenge.attempts < AUTH_MAX_ATTEMPTS →
      wrongPin issue.pin pin = false) :
    Ledger pinTtlSeconds ⟨⟨logged.state.manager, now⟩,
      verifyEntry clientAddress challengeId pin now random missed (result, none) ::
        logged.log⟩ := by
  have hconfirms : ∀ id, (verifyEntry clientAddress challengeId pin now random missed
      (result, none)).confirms id = false :=
    fun id => Bool.eq_false_iff.mpr fun htrue => hresult (verifyEntry_confirms htrue).2
  refine h.unissued hclock rfl ?_ rfl h.tidy ?_ ?_
  · intro id htrue
    cases (hconfirms id).symm.trans htrue
  · intro i challenge hget hoccupied
    obtain ⟨issue, hmirrors⟩ := h.mirrors i challenge hget hoccupied
    refine ⟨issue, hmirrors.cons (Entry.issue_of_none rfl _) (hconfirms _) ?_⟩
    intro hunused hfew tried htried
    obtain ⟨haddress, hid, rfl⟩ := verifyEntry_tried htried
    exact hguess i challenge issue hget hoccupied hmirrors haddress.symm hid.symm hunused hfew
  · intro i challenge issue hget hoccupied _ _
    exact ⟨i, challenge, hget, Challenge.ownedBy_iff.mpr ⟨hoccupied, rfl⟩⟩

/-- A verify that changes the record it works on, or erases it behind its expiry. -/
theorem Ledger.verify_set {manager : Manager} {slot : ℕ} {challenge replaced : Challenge}
    {issue : Issue} {random : Random} {missed : Bool} {answer : AuthResult × Option SessionResult}
    (h : Ledger pinTtlSeconds logged) (hclock : logged.state.clock ≤ now)
    (hfinds : Finds logged.state.manager.challenges clientAddress challengeId slot challenge)
    (hmirrors : challenge.Mirrors pinTtlSeconds logged.log issue)
    (hid : issue.challengeId = challengeId)
    (httl : manager.pinTtlSeconds = logged.state.manager.pinTtlSeconds)
    (hset : manager.challenges = logged.state.manager.challenges.set slot replaced)
    (hreplaced : (replaced = .cleared ∧ challenge.expiresAt ≤ now) ∨
      (replaced.ownedBy clientAddress = true ∧ replaced.Mirrors pinTtlSeconds
        (verifyEntry clientAddress challengeId pin now random missed answer :: logged.log)
        issue)) :
    Ledger pinTtlSeconds ⟨⟨manager, now⟩,
      verifyEntry clientAddress challengeId pin now random missed answer :: logged.log⟩ := by
  have hslot : ∀ (j : ℕ) other, logged.state.manager.challenges[j]? = some other →
      other.occupied = true → other.clientAddress = clientAddress → j = slot := by
    intro j other hget hoccupied hsame
    exact h.tidy.alone j slot other challenge hget hfinds.get hoccupied hfinds.occupied
      (hsame.trans hfinds.address.symm)
  refine h.unissued hclock rfl ?_ httl ?_ ?_ ?_
  · intro id htrue
    rw [← (verifyEntry_confirms htrue).1, ← hid]
    exact (h.formed _ _ hmirrors.last).2
  · rw [hset]
    exact h.tidy.finds_set hfinds (hreplaced.imp And.left And.left)
  · intro j other hget hoccupied
    rw [hset, List.getElem?_set] at hget
    split at hget
    · split at hget
      · cases hget
        rcases hreplaced with ⟨hcleared, -⟩ | ⟨-, hnew⟩
        · rw [hcleared] at hoccupied
          cases hoccupied
        · exact ⟨issue, hnew⟩
      · cases hget
    · rename_i hne
      obtain ⟨issue', hmirrors'⟩ := h.mirrors j other hget hoccupied
      have hother : clientAddress ≠ other.clientAddress :=
        fun hsame => hne (hslot j other hget hoccupied hsame.symm).symm
      refine ⟨issue', hmirrors'.cons (Entry.issue_of_none rfl _) ?_ ?_⟩
      · rw [Bool.eq_false_iff]
        intro htrue
        have hsame := (verifyEntry_confirms htrue).1
        have howner := h.owner _ _ issue issue' hmirrors.last hmirrors'.last (hid.trans hsame)
        exact hother (hfinds.address.symm.trans howner)
      · intro _ _ tried htried
        exact absurd (verifyEntry_tried htried).1 hother
  · intro j other issue' hget hoccupied hmirrors' hlive
    rw [hset]
    by_cases hj : j = slot
    · subst hj
      obtain rfl : other = challenge := Option.some.inj (hget.symm.trans hfinds.get)
      have hlt := (List.getElem?_eq_some_iff.mp hget).1
      rcases hreplaced with ⟨-, hexpired⟩ | ⟨howned, -⟩
      · rw [hmirrors'.expires] at hexpired
        exact absurd hlive (UInt64.not_lt.mpr hexpired)
      · exact ⟨j, replaced, List.getElem?_set_self hlt, hfinds.address ▸ howned⟩
    · exact ⟨j, other, (List.getElem?_set_ne (Ne.symm hj)).trans hget,
        Challenge.ownedBy_iff.mpr ⟨hoccupied, rfl⟩⟩

theorem Ledger.verify (h : Ledger pinTtlSeconds logged) (hclock : logged.state.clock ≤ now)
    {random : Random} {missed : Bool} {stretch : Manager × AuthResult × Option SessionResult}
    (hspec : Verified logged.state.manager clientAddress challengeId pin now random missed
      stretch) :
    Ledger pinTtlSeconds ⟨⟨stretch.1, now⟩,
      verifyEntry clientAddress challengeId pin now random missed stretch.2 :: logged.log⟩ := by
  cases hspec with
  | unmatched result hresult hnone =>
      refine h.verify_same hclock hresult ?_
      intro i challenge issue hget hoccupied hmirrors haddress hid _ _
      have hformed := (h.formed _ _ hmirrors.last).1
      by_cases hlength : pin.length = AUTH_PIN_DIGITS
      · have hfinds := h.finds hget hoccupied hmirrors
        rw [haddress, hid] at hformed hfinds
        exact absurd hfinds (hnone ⟨hformed.address, hformed.id, hlength⟩ i challenge)
      · simp [wrongPin, hlength]
  | spent result hresult slot challenge hformed hfinds hspent =>
      refine h.verify_same hclock hresult ?_
      intro i other issue hget hoccupied hmirrors haddress hid hunused hfew
      obtain rfl := h.tidy.alone i slot other challenge hget hfinds.get hoccupied hfinds.occupied
        (haddress.trans hfinds.address.symm)
      obtain rfl : other = challenge := Option.some.inj (hget.symm.trans hfinds.get)
      rcases hspent with hused | hspent
      · cases hunused.symm.trans hused
      · omega
  | expired slot challenge hformed hfinds hexpired =>
      obtain ⟨issue, hmirrors, hid⟩ := h.mirrors_of_finds hformed.id hfinds
      exact h.verify_set hclock hfinds hmirrors hid rfl rfl (.inl ⟨rfl, hexpired⟩)
  | missed result hresult slot challenge hformed hfinds hlive hwrong =>
      obtain ⟨issue, hmirrors, hid⟩ := h.mirrors_of_finds hformed.id hfinds
      refine h.verify_set hclock hfinds hmirrors hid rfl rfl (.inr ⟨?_, ?_⟩)
      · obtain ⟨_, _, hmissed, -⟩ := challenge.missed_eq now
        rw [hmissed]
        exact Challenge.ownedBy_iff.mpr ⟨hfinds.occupied, hfinds.address⟩
      · exact hmirrors.missed hformed.pin hfinds.address hlive hid hresult hwrong
  | unissued slot challenge hformed hfinds hright htoken =>
      refine h.verify_same hclock (by simp) ?_
      intro i other issue hget hoccupied hmirrors haddress hid hunused hfew
      obtain rfl := h.tidy.alone i slot other challenge hget hfinds.get hoccupied hfinds.occupied
        (haddress.trans hfinds.address.symm)
      obtain rfl : other = challenge := Option.some.inj (hget.symm.trans hfinds.get)
      have hpin := (h.formed _ _ hmirrors.last).1.pin
      rw [hmirrors.pin hunused hfew] at hright
      have hsame := (constantTimeEqual_iff hpin hformed.pin).mp hright
      simp [wrongPin, hsame]
  | confirmed token slot challenge hformed hfinds hlive hright htoken =>
      obtain ⟨issue, hmirrors, hid⟩ := h.mirrors_of_finds hformed.id hfinds
      refine h.verify_set hclock hfinds hmirrors hid rfl rfl (.inr ⟨?_, ?_⟩)
      · exact Challenge.ownedBy_iff.mpr ⟨hfinds.occupied, hfinds.address⟩
      · exact hmirrors.confirmed hid

/-! ## A create and a validate -/

/-- The entry of a call that is no verify. -/
structure Entry.Untried (entry : Entry) : Prop where
  tried : ∀ clientAddress challengeId, entry.tried clientAddress challengeId = none
  confirms : ∀ challengeId, entry.confirms challengeId = false

theorem Challenge.Mirrors.untried {challenge : Challenge} {issue : Issue} {entry : Entry}
    (h : challenge.Mirrors pinTtlSeconds log issue) (hentry : entry.Untried)
    (hissue : entry.issue challenge.clientAddress = none) :
    challenge.Mirrors pinTtlSeconds (entry :: log) issue := by
  refine h.cons hissue (hentry.confirms _) ?_
  intro _ _ tried htried
  cases (hentry.tried _ _).symm.trans htried

/-- A call that leaves the table alone, but for the clean-up. -/
theorem Ledger.cleaned {manager : Manager} {entry : Entry} (h : Ledger pinTtlSeconds logged)
    (hclock : logged.state.clock ≤ now) (hentry : entry.Untried)
    (hnone : entry.reply.challenge = none)
    (hmanager : manager = logged.state.manager ∨
      manager = cleanupExpired logged.state.manager now) :
    Ledger pinTtlSeconds ⟨⟨manager, now⟩, entry :: logged.log⟩ := by
  refine h.unissued hclock hnone ?_ ?_ ?_ ?_ ?_
  · intro challengeId htrue
    cases (hentry.confirms challengeId).symm.trans htrue
  · rcases hmanager with rfl | rfl <;> rfl
  · rcases hmanager with rfl | rfl
    · exact h.tidy
    · exact h.tidy.unexpired now
  · intro i challenge hget hoccupied
    have hget' : logged.state.manager.challenges[i]? = some challenge := by
      rcases hmanager with rfl | rfl
      · exact hget
      · exact getElem?_unexpired hget hoccupied
    obtain ⟨issue, hmirrors⟩ := h.mirrors i challenge hget' hoccupied
    exact ⟨issue, hmirrors.untried hentry (entry.issue_of_none hnone _)⟩
  · intro i challenge issue hget hoccupied hmirrors hlive
    refine ⟨i, challenge, ?_, Challenge.ownedBy_iff.mpr ⟨hoccupied, rfl⟩⟩
    rcases hmanager with rfl | rfl
    · exact hget
    · exact unexpired_getElem? hget (hmirrors.expires ▸ hlive)

/-- The entry of a create. -/
def createEntry (clientAddress : CString) (now : UInt64) (random : Random) (missed : Bool)
    (answer : AuthResult × Option ChallengeResult) : Entry :=
  ⟨.create clientAddress now random, ⟨answer.1, answer.2, none⟩, missed⟩

theorem createEntry_untried (clientAddress : CString) (now : UInt64) (random : Random)
    (missed : Bool) (answer : AuthResult × Option ChallengeResult) :
    (createEntry clientAddress now random missed answer).Untried :=
  ⟨fun _ _ => rfl, fun _ => rfl⟩

/-- The challenge of a successful create, in the log of its address only. -/
theorem createEntry_issue (clientAddress challengeId pin : CString) (now : UInt64)
    (random : Random) (missed : Bool) (ttl : UInt32) (other : CString) :
    (createEntry clientAddress now random missed (.ok, some ⟨challengeId, pin, ttl⟩)).issue other =
      if clientAddress = other then some ⟨challengeId, pin, now⟩ else none := rfl

theorem generateHex_formed {random : Option Bytes} {count : ℕ}
    (h : generateHex random count = some challengeId)
    (hlength : ∀ bytes, random = some bytes → count ≤ bytes.length) :
    challengeId.length = 2 * count := by
  obtain ⟨bytes, hbytes, rfl⟩ := Option.map_eq_some_iff.mp h
  rw [bytesToHex, hexBytes_length, List.length_take, Nat.min_eq_left (hlength bytes hbytes)]

theorem Ledger.issued {slot : ℕ} {random : Random} {missed : Bool}
    (h : Ledger pinTtlSeconds logged) (hclock : logged.state.clock ≤ now)
    (hsupplied : Supplied logged (.create clientAddress now random))
    (haddress : validClientAddress clientAddress = true)
    (hid : generateHex random.idBytes (AUTH_CHALLENGE_ID_HEX_BYTES / 2) = some challengeId)
    (hpin : generatePin random.pinDraws = some pin)
    (hfree : (withoutOwn (unexpired logged.state.manager.challenges now) clientAddress)[slot]? =
      some .cleared) :
    Ledger pinTtlSeconds ⟨⟨{ cleanupExpired logged.state.manager now with
        challenges := (withoutOwn (unexpired logged.state.manager.challenges now)
          clientAddress).set slot (.issued clientAddress challengeId pin
            (now + logged.state.manager.pinTtlSeconds.toUInt64)) }, now⟩,
      createEntry clientAddress now random missed
        (.ok, some ⟨challengeId, pin, logged.state.manager.pinTtlSeconds⟩) :: logged.log⟩ := by
  have hentry := createEntry_untried clientAddress now random missed
    (.ok, some ⟨challengeId, pin, logged.state.manager.pinTtlSeconds⟩)
  have hissue := createEntry_issue clientAddress challengeId pin now random missed
    logged.state.manager.pinTtlSeconds
  have hids : issuedIds (createEntry clientAddress now random missed
      (.ok, some ⟨challengeId, pin, logged.state.manager.pinTtlSeconds⟩) :: logged.log) =
      challengeId :: issuedIds logged.log := rfl
  generalize createEntry clientAddress now random missed
    (.ok, some ⟨challengeId, pin, logged.state.manager.pinTtlSeconds⟩) = entry
    at hentry hissue hids ⊢
  have hnew : challengeId ∉ issuedIds logged.log := by
    obtain ⟨bytes, hbytes, rfl⟩ := Option.map_eq_some_iff.mp hid
    exact (hsupplied bytes hbytes).2
  have hformed : WellFormed clientAddress challengeId pin :=
    ⟨haddress, generateHex_formed hid fun bytes hbytes => (hsupplied bytes hbytes).1,
      generatePin_length hpin⟩
  have hown : lastIssue clientAddress (entry :: logged.log) = some ⟨challengeId, pin, now⟩ := by
    simp [lastIssue, hissue]
  have hothers : ∀ other, other ≠ clientAddress →
      lastIssue other (entry :: logged.log) = lastIssue other logged.log :=
    fun other hother => lastIssue_cons ((hissue other).trans (if_neg (Ne.symm hother)))
  have hset : ∀ (j : ℕ) other,
      ((withoutOwn (unexpired logged.state.manager.challenges now) clientAddress).set slot
        (.issued clientAddress challengeId pin
          (now + logged.state.manager.pinTtlSeconds.toUInt64)))[j]? = some other →
      other.occupied = true → j ≠ slot →
      logged.state.manager.challenges[j]? = some other ∧ other.clientAddress ≠ clientAddress := by
    intro j other hget hoccupied hj
    rw [List.getElem?_set_ne hj.symm] at hget
    obtain ⟨hget', hother⟩ := getElem?_withoutOwn hget hoccupied
    exact ⟨getElem?_unexpired hget' hoccupied, hother⟩
  have hlt := (List.getElem?_eq_some_iff.mp hfree).1
  refine ⟨?_, h.ttl, ?_, ?_, ?_, ?_, ?_⟩
  · exact h.tidy.issued ..
  · intro j other hget hoccupied
    by_cases hj : j = slot
    · subst hj
      rw [List.getElem?_set_self hlt] at hget
      cases hget
      refine ⟨⟨challengeId, pin, now⟩, hown, rfl, by rw [← h.ttl]; rfl, ?_, ?_, fun _ _ => rfl⟩
      · rw [confirmed_cons, hentry.confirms, Bool.false_or]
        exact (Bool.eq_false_iff.mpr fun htrue => hnew (h.confirmed _ htrue)).symm
      · intro _
        simp [triedSince, hissue, Challenge.issued]
    · obtain ⟨hget', hother⟩ := hset j other hget hoccupied hj
      obtain ⟨issue, hmirrors⟩ := h.mirrors j other hget' hoccupied
      exact ⟨issue, hmirrors.untried hentry ((hissue _).trans (if_neg (Ne.symm hother)))⟩
  · intro other issue hlast hlive
    by_cases hsame : other = clientAddress
    · subst hsame
      exact ⟨slot, _, List.getElem?_set_self hlt, Challenge.ownedBy_iff.mpr ⟨rfl, rfl⟩⟩
    · rw [hothers other hsame] at hlast
      obtain ⟨i, challenge, hget, howned⟩ := h.live other issue hlast
        (UInt64.lt_of_le_of_lt hclock hlive)
      obtain ⟨hoccupied, rfl⟩ := Challenge.ownedBy_iff.mp howned
      obtain ⟨issue', hmirrors⟩ := h.mirrors i challenge hget hoccupied
      obtain rfl : issue = issue' := Option.some.inj (hlast.symm.trans hmirrors.last)
      have hkept := withoutOwn_getElem? (unexpired_getElem? hget (hmirrors.expires ▸ hlive)) hsame
      have hi : slot ≠ i := by
        rintro rfl
        cases hfree.symm.trans hkept
        cases hoccupied
      exact ⟨i, challenge, (List.getElem?_set_ne hi).trans hkept, howned⟩
  · intro first second issue issue' hfirst hsecond hsame
    by_cases hf : first = clientAddress
    · by_cases hs : second = clientAddress
      · exact hf.trans hs.symm
      · rw [hothers second hs] at hsecond
        subst hf
        cases hown.symm.trans hfirst
        have hmem := (h.formed _ _ hsecond).2
        rw [← hsame] at hmem
        exact absurd hmem hnew
    · rw [hothers first hf] at hfirst
      by_cases hs : second = clientAddress
      · subst hs
        cases hown.symm.trans hsecond
        have hmem := (h.formed _ _ hfirst).2
        rw [hsame] at hmem
        exact absurd hmem hnew
      · rw [hothers second hs] at hsecond
        exact h.owner _ _ _ _ hfirst hsecond hsame
  · intro other issue hlast
    rw [hids]
    by_cases hsame : other = clientAddress
    · subst hsame
      cases hown.symm.trans hlast
      exact ⟨hformed, List.mem_cons_self ..⟩
    · rw [hothers other hsame] at hlast
      obtain ⟨hformed', hmem⟩ := h.formed other issue hlast
      exact ⟨hformed', List.mem_cons_of_mem _ hmem⟩
  · intro id hconfirmed
    rw [hids]
    rw [confirmed_cons, hentry.confirms, Bool.false_or] at hconfirmed
    exact List.mem_cons_of_mem _ (h.confirmed id hconfirmed)

/-! ## Runs -/

/-- The log a manager starts with. -/
def Logged.start (manager : Manager) (clock : UInt64) : Logged := ⟨⟨manager, clock⟩, []⟩

theorem ledger_start {sessionTtlSeconds : UInt32} {manager : Manager}
    (hcreate : authManagerCreate pinTtlSeconds sessionTtlSeconds = some manager)
    (clock : UInt64) : Ledger pinTtlSeconds (.start manager clock) := by
  unfold authManagerCreate at hcreate
  split at hcreate
  · cases hcreate
  cases hcreate
  have htidy : Tidy (List.replicate AUTH_MAX_CHALLENGES Challenge.cleared) := tidy_replicate _
  refine ⟨htidy, rfl, ?_, ?_, ?_, ?_, ?_⟩
  · intro i challenge hget hoccupied
    obtain rfl := List.eq_of_mem_replicate (List.mem_of_getElem? hget)
    cases hoccupied
  · intro clientAddress issue hlast
    cases hlast
  · intro clientAddress other issue issue' hlast
    cases hlast
  · intro clientAddress issue hlast
    cases hlast
  · intro challengeId hconfirmed
    cases hconfirmed

theorem record_eq {logged next : Logged} {call : Call} (h : record logged call = some next) :
    logged.state.clock ≤ call.now ∧ next = ⟨⟨logged.state.manager.after call, call.now⟩,
      ⟨call, logged.state.manager.reply call, logged.state.manager.misses call⟩ ::
        logged.log⟩ := by
  unfold record step at h
  split at h
  · rename_i hclock
    exact ⟨hclock, (Option.some.inj h).symm⟩
  · cases h

theorem ledger_record {logged next : Logged} {call : Call} (h : Ledger pinTtlSeconds logged)
    (hsupplied : Supplied logged call) (hrecord : record logged call = some next) :
    Ledger pinTtlSeconds next := by
  obtain ⟨hclock, rfl⟩ := record_eq hrecord
  cases call with
  | create clientAddress now random =>
      have hspec := authCreateChallengeAt_spec h.tidy clientAddress now random
      simp only [Manager.after, Manager.reply, Call.now]
      generalize authCreateChallengeAt logged.state.manager clientAddress now random = created
        at hspec
      have hentry := createEntry_untried clientAddress now random
      cases hspec with
      | refused result => exact h.cleaned hclock (hentry _ (result, none)) rfl (.inl rfl)
      | kept result => exact h.cleaned hclock (hentry _ (result, none)) rfl (.inr rfl)
      | issued challengeId pin slot haddress hid hpin hfree =>
          exact h.issued hclock hsupplied haddress hid hpin hfree
  | verify clientAddress challengeId pin now random =>
      exact h.verify hclock (authVerifyChallengeAt_spec ..)
  | validate clientAddress authorization now =>
      refine h.cleaned hclock ⟨fun _ _ => rfl, fun _ => rfl⟩ rfl ?_
      simp only [Manager.after, authValidateBearerAt]
      split
      · exact .inl rfl
      · split
        · exact .inl rfl
        · exact .inr rfl

theorem ledger_run {sessionTtlSeconds : UInt32} {manager : Manager} {clock : UInt64}
    {calls : List Call}
    (hcreate : authManagerCreate pinTtlSeconds sessionTtlSeconds = some manager)
    (hrun : Run record Supplied (.start manager clock) calls logged) :
    Ledger pinTtlSeconds logged :=
  hrun.invariant (fun _ _ _ => ledger_record) (ledger_start hcreate clock)

/-! ## Who can confirm a challenge -/

/-- A verify confirms exactly what the history allows it to. -/
theorem Ledger.verify_ok_iff (h : Ledger pinTtlSeconds logged)
    (hclock : logged.state.clock ≤ now) {random : Random}
    (htoken : random.tokenBytes.isSome = true) :
    (authVerifyChallengeAt logged.state.manager clientAddress challengeId pin now random).2.1 =
        .ok ↔
      Confirmable wrongPin pinTtlSeconds logged.log clientAddress challengeId pin now := by
  have hspec := authVerifyChallengeAt_spec logged.state.manager clientAddress challengeId pin now
    random
  generalize logged.state.manager.misses (.verify clientAddress challengeId pin now random) =
    missed at hspec
  generalize authVerifyChallengeAt logged.state.manager clientAddress challengeId pin now random =
    stretch at hspec ⊢
  constructor
  · intro hok
    cases hspec with
    | unmatched result hresult => exact absurd hok hresult
    | spent result hresult => exact absurd hok hresult
    | expired => cases hok
    | missed result hresult => exact absurd hok hresult
    | unissued => cases hok
    | confirmed token slot challenge hformed hfinds hlive hright htoken =>
        obtain ⟨issue, hmirrors, hid⟩ := h.mirrors_of_finds hformed.id hfinds
        have hpin := (h.formed _ _ hmirrors.last).1.pin
        have hattempts := hmirrors.attempts hlive.unused
        have hfew := hlive.few
        rw [hmirrors.pin hlive.unused hfew, constantTimeEqual_iff hpin hformed.pin] at hright
        have hunexpired := hlive.unexpired
        rw [hmirrors.expires] at hunexpired
        have hunused := hmirrors.used
        rw [hfinds.address, hid] at hattempts
        rw [hid] at hunused
        refine ⟨issue, hfinds.address ▸ hmirrors.last, hid, hright, hunexpired, ?_,
          hunused.symm.trans hlive.unused⟩
        rw [← hright]
        omega
  · rintro ⟨issue, hlast, hid, hpin, hunexpired, hfew, hunused⟩
    subst hid hpin
    obtain ⟨i, challenge, hget, howned⟩ := h.live clientAddress issue hlast
      (UInt64.lt_of_le_of_lt hclock hunexpired)
    obtain ⟨hoccupied, rfl⟩ := Challenge.ownedBy_iff.mp howned
    obtain ⟨issue', hmirrors⟩ := h.mirrors i challenge hget hoccupied
    obtain rfl : issue = issue' := Option.some.inj (hlast.symm.trans hmirrors.last)
    have hformed := (h.formed _ _ hlast).1
    have hfinds := h.finds hget hoccupied hmirrors
    have hunused' := hmirrors.used.trans hunused
    have hattempts := hmirrors.attempts hunused'
    have hlive : challenge.Live now :=
      ⟨hunused', hmirrors.expires ▸ hunexpired, by omega⟩
    have hright : constantTimeEqual challenge.pin issue.pin AUTH_PIN_DIGITS = true := by
      rw [hmirrors.pin hunused' hlive.few]
      exact (constantTimeEqual_iff hformed.pin hformed.pin).mpr rfl
    cases hspec with
    | unmatched result hresult hnone => exact absurd hfinds (hnone hformed i challenge)
    | spent result hresult slot other hformed' hfinds' hspent =>
        obtain ⟨rfl, rfl⟩ := hfinds.unique hfinds'
        rcases hspent with hused | hspent
        · cases hunused'.symm.trans hused
        · exact absurd hlive.few (Nat.not_lt.mpr hspent)
    | expired slot other hformed' hfinds' hexpired =>
        obtain ⟨rfl, rfl⟩ := hfinds.unique hfinds'
        exact absurd hlive.unexpired (UInt64.not_lt.mpr hexpired)
    | missed result hresult slot other hformed' hfinds' hlive' hwrong =>
        obtain ⟨rfl, rfl⟩ := hfinds.unique hfinds'
        cases hwrong.symm.trans hright
    | unissued slot other hformed' hfinds' hright' hnone =>
        simp [generateHex, Option.isSome_iff_ne_none.mp htoken] at hnone
    | confirmed => rfl

/-- In a run whose random bytes do not repeat an identifier, a verify at `now` succeeds
exactly when the last challenge issued to its address is the one it names, with its PIN, is
not expired, has been guessed wrong fewer than five times, and has not been confirmed. -/
theorem verify_ok_iff_confirmable {sessionTtlSeconds : UInt32} {manager : Manager}
    {clock : UInt64} {calls : List Call}
    (hcreate : authManagerCreate pinTtlSeconds sessionTtlSeconds = some manager)
    (hrun : Run record Supplied (.start manager clock) calls logged)
    (hclock : logged.state.clock ≤ now) {random : Random}
    (htoken : random.tokenBytes.isSome = true) :
    (authVerifyChallengeAt logged.state.manager clientAddress challengeId pin now random).2.1 =
        .ok ↔
      Confirmable wrongPin pinTtlSeconds logged.log clientAddress challengeId pin now :=
  (ledger_run hcreate hrun).verify_ok_iff hclock htoken

namespace Sample

/-- The address `10.0.0.2`. -/
def phone : CString := [49, 48, 46, 48, 46, 48, 46, 50]

/-- Random bytes that are all `seed`, and the PIN 000001. -/
def random (seed : UInt8) : Random :=
  ⟨some (.replicate 16 seed), [some 1], some (.replicate 32 seed)⟩

/-- The identifier of the challenge created with `seed`. -/
def idOf (seed : UInt8) : CString := bytesToHex (.replicate 16 seed)

def rightPin : CString := pinDigits 1

/-- The manager the process starts with. -/
def manager : Manager := ⟨300, 1800, .replicate 8 .cleared, .replicate 4 .cleared⟩

/-- A challenge, and five verifies of it with an empty PIN. -/
def emptyPins : List Call :=
  .create phone 1000 (random 1) ::
    .replicate 5 (.verify phone (idOf 1) [] 1010 (random 1))

/-- The log of these calls. -/
def afterEmptyPins : Logged :=
  (exec record (.start manager 0) emptyPins).get (by decide +kernel)

end Sample

open Sample in
/-- A challenge that was only tried with an empty PIN can be confirmed. -/
theorem verify_ok_afterEmptyPins :
    (authVerifyChallengeAt afterEmptyPins.state.manager phone (idOf 1) rightPin 1020
      (random 2)).2.1 = .ok := by
  have hexec : exec record (.start manager 0) emptyPins = some afterEmptyPins :=
    (Option.some_get _).symm
  have hfirst : Supplied (.start manager 0) (.create phone 1000 (random 1)) := by
    rintro bytes ⟨⟩
    exact ⟨by decide, by simp [Logged.start, issuedIds]⟩
  obtain ⟨created, hcreated, hrest⟩ := Option.bind_eq_some_iff.mp hexec
  have hverifies : ∀ call ∈ List.replicate 5 (Call.verify phone (idOf 1) [] 1010
      (random 1)), ∀ logged, Supplied logged call := by
    intro call hmem logged
    rw [List.eq_of_mem_replicate hmem]
    trivial
  have hrun := Run.cons hfirst hcreated (Run.of_exec hverifies hrest)
  have hcreate : authManagerCreate 300 1800 = some manager := by decide +kernel
  refine (verify_ok_iff_confirmable hcreate hrun (by decide +kernel) rfl).mpr ?_
  refine ⟨⟨idOf 1, rightPin, 1000⟩, ?_, rfl, rfl, ?_, ?_, ?_⟩ <;> decide +kernel

open Sample in
/-- Five verifies with an empty PIN are five with a wrong PIN, and do not use up the
challenge. -/
theorem afterEmptyPins_not_exhausted :
    exec record (.start manager 0) emptyPins = some afterEmptyPins ∧
      (authVerifyChallengeAt afterEmptyPins.state.manager phone (idOf 1) rightPin 1020
        (random 2)).2.1 = .ok ∧
      ¬Confirmable (fun pin tried => tried ≠ pin) 300 afterEmptyPins.log phone (idOf 1)
        rightPin 1020 := by
  refine ⟨(Option.some_get _).symm, by decide +kernel, ?_⟩
  rintro ⟨issue, hlast, -, -, -, hfew, -⟩
  have hissue : lastIssue phone afterEmptyPins.log = some ⟨idOf 1, rightPin, 1000⟩ := by
    decide +kernel
  cases hissue.symm.trans hlast
  exact absurd hfew (by decide +kernel)

end LocalSend.Auth
