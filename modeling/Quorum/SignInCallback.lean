import Quorum.BaseInquiry
import Quorum.DebateReply
import Quorum.SessionRepository
import Quorum.SignInStates

/-! The way back of a sign-in (`google_signin.google_sign_in_callback`): the pending sign-in is
taken, its state is compared, the code is exchanged for an identity, and the session is replaced by
one of the account. What the session repository, the stores and the token endpoint answer may be
anything, so what holds of a callback holds beside every other request. -/

namespace Quorum

open Inquiry IsoTime Transaction

def tokenResponseMaxBytes : ℕ := 65536

/-- `ID_TOKEN_CLOCK_SKEW_S`. -/
def idTokenClockSkew : ℤ := 300

def googleIssuers : List Text := ["https://accounts.google.com",
  "accounts.google.com"].map String.toList

/-- Why a sign-in did not complete. -/
inductive SignInReason
  | noSession
  | noPendingSignIn
  | stateMismatch
  | noCode
  | tokenEndpointRefused
  | tokenExchangeTimedOut
  | tokenExchangeUnreachable
  | tokenExchangeRefused
  | tokenResponseTooLarge
  | tokenResponseUnreadable
  | tokenResponseHasNoIdToken
  | idTokenMalformed
  | idTokenWrongIssuer
  | idTokenWrongAudience
  | idTokenWrongAuthorizedParty
  | idTokenExpired
  | idTokenBadIssueTime
  | idTokenEmailNotVerified
  | idTokenHasNoSubject
  | idTokenHasNoEmail
  | accountNotRecorded
deriving DecidableEq

/-- What an exchange raises: `SignInFailed`, which the callback catches, or what it does not. -/
inductive ExchangeRaise
  | failed (reason : SignInReason)
  | recursionError

structure VerifiedIdentity where
  googleSub : Text
  email : Text

/-- What `_post_within` comes to. -/
inductive TokenReply
  | timedOut
  | unreachable
  | replied (status : ℕ) (raw : List UInt8)

/-- `str.isspace`, `json.loads`, and the base64 and JSON of a token's segment. -/
structure SignInTables where
  isspace : Char → Bool
  loads : List UInt8 → Decoded
  decodeSegment : Text → Decoded

structure SignInSettings where
  enabled : Bool
  clientId : Text
  tokenEndpointSafe : Bool

/-! ### The token -/

section

variable (t : SignInTables)

/-- The ID token of the endpoint's response. -/
def idTokenOf : TokenReply → Except ExchangeRaise Text
  | .timedOut => .error (.failed .tokenExchangeTimedOut)
  | .unreachable => .error (.failed .tokenExchangeUnreachable)
  | .replied status raw =>
      if status ≠ 200 then .error (.failed .tokenExchangeRefused)
      else if tokenResponseMaxBytes < raw.length then .error (.failed .tokenResponseTooLarge)
      else
        match t.loads raw with
        | .recursionError => .error .recursionError
        | .valueError => .error (.failed .tokenResponseUnreadable)
        | .value payload =>
            match (payload.get? "id_token").bind Json.str? with
            | none => .error (.failed .tokenResponseHasNoIdToken)
            | some idToken => .ok idToken

/-- `_claims_of`. -/
def claimsOf (idToken : Text) : Except ExchangeRaise Json :=
  match idToken.splitOn '.' with
  | [_, segment, _] =>
      match t.decodeSegment segment with
      | .recursionError => .error .recursionError
      | .valueError => .error (.failed .idTokenMalformed)
      | .value payload =>
          match payload.mapping? with
          | none => .error (.failed .idTokenMalformed)
          | some claims => .ok claims
  | _ => .error (.failed .idTokenMalformed)

/-- `_whole_seconds`. -/
def wholeSeconds : Option Json → Option ℤ
  | some (.int value) => some value
  | _ => none

/-- The claim is `true` itself. -/
def isTrue : Option Json → Bool
  | some (.bool true) => true
  | _ => false

/-- `text.strip()` is not empty. -/
def SignInTables.written (text : Text) : Bool := !text.all t.isspace

/-- The checks of `verify_id_token`, each with its reason. -/
def identityOf (clientId : Text) (now : ℚ) (claims : Json) : Except SignInReason VerifiedIdentity :=
  if ((claims.get? "iss").bind Json.str?).all fun issuer => issuer ∉ googleIssuers then
    .error .idTokenWrongIssuer
  else if clientId = [] ∨ (claims.get? "aud").bind Json.str? ≠ some clientId then
    .error .idTokenWrongAudience
  else if claims.get? "azp" ≠ none ∧ (claims.get? "azp").bind Json.str? ≠ some clientId then
    .error .idTokenWrongAuthorizedParty
  else
    match wholeSeconds (claims.get? "exp") with
    | none => .error .idTokenExpired
    | some expires =>
        if (expires : ℚ) ≤ now then .error .idTokenExpired
        else
          match wholeSeconds (claims.get? "iat") with
          | none => .error .idTokenBadIssueTime
          | some issued =>
              if now + idTokenClockSkew < issued ∨ expires < issued then .error .idTokenBadIssueTime
              else if isTrue (claims.get? "email_verified") = false then
                .error .idTokenEmailNotVerified
              else
                match ((claims.get? "sub").bind Json.str?).filter t.written with
                | none => .error .idTokenHasNoSubject
                | some subject =>
                    match ((claims.get? "email").bind Json.str?).filter t.written with
                    | none => .error .idTokenHasNoEmail
                    | some email => .ok ⟨subject, email⟩

/-- `verify_id_token`. -/
def verifyIdToken (clientId idToken : Text) (now : ℚ) : Except ExchangeRaise VerifiedIdentity :=
  match claimsOf t idToken with
  | .error raised => .error raised
  | .ok claims => (identityOf t clientId now claims).mapError .failed


/-- What the claims of an accepted token say. -/
structure ClaimsVerified (clientId : Text) (now : ℚ) (claims : Json)
    (identity : VerifiedIdentity) : Prop where
  issuer : ∃ issuer ∈ googleIssuers, (claims.get? "iss").bind Json.str? = some issuer
  audience : clientId ≠ [] ∧ (claims.get? "aud").bind Json.str? = some clientId
  party : claims.get? "azp" ≠ none → (claims.get? "azp").bind Json.str? = some clientId
  times : ∃ issued expires : ℤ, wholeSeconds (claims.get? "iat") = some issued ∧
    wholeSeconds (claims.get? "exp") = some expires ∧ now < expires ∧
    issued ≤ now + idTokenClockSkew ∧
    issued ≤ expires
  emailVerified : isTrue (claims.get? "email_verified") = true
  subject : (claims.get? "sub").bind Json.str? = some identity.googleSub ∧
    t.written identity.googleSub = true
  email : (claims.get? "email").bind Json.str? = some identity.email ∧
    t.written identity.email = true

variable {t}

theorem claimsVerified_of_identityOf {clientId : Text} {now : ℚ} {claims : Json}
    {identity : VerifiedIdentity} (h : identityOf t clientId now claims = .ok identity) :
    ClaimsVerified t clientId now claims identity := by
  rw [identityOf] at h
  split at h
  · cases h
  rename_i hissuer
  split at h
  · cases h
  rename_i haudience
  split at h
  · cases h
  rename_i hparty
  split at h
  · cases h
  rename_i expires hexpires
  split at h
  · cases h
  rename_i hexpired
  split at h
  · cases h
  rename_i issued hissued
  split at h
  · cases h
  rename_i htimes
  split at h
  · cases h
  rename_i hemailVerified
  split at h
  · cases h
  rename_i subject hsubject
  split at h
  · cases h
  rename_i email hemail
  obtain rfl := Except.ok.inj h
  obtain ⟨hlate, hbefore⟩ := not_or.mp htimes
  obtain ⟨hclient, haud⟩ := not_or.mp haudience
  refine
    { issuer := ?_
      audience := ⟨hclient, not_not.mp haud⟩
      party := fun hazp => not_not.mp fun hne => hparty ⟨hazp, hne⟩
      times := ⟨issued, expires, hissued, hexpires, not_le.mp hexpired, not_lt.mp hlate,
        not_lt.mp hbefore⟩
      emailVerified := Bool.of_not_eq_false hemailVerified
      subject := Option.filter_eq_some_iff.mp hsubject
      email := Option.filter_eq_some_iff.mp hemail }
  cases hiss : (claims.get? "iss").bind Json.str? with
  | none => simp [hiss] at hissuer
  | some issuer => exact ⟨issuer, by simpa [hiss] using hissuer, rfl⟩

theorem verifyIdToken_ok {clientId idToken : Text} {now : ℚ} {identity : VerifiedIdentity}
    (h : verifyIdToken t clientId idToken now = .ok identity) :
    ∃ claims, claimsOf t idToken = .ok claims ∧ ClaimsVerified t clientId now claims identity := by
  rw [verifyIdToken] at h
  cases hclaims : claimsOf t idToken with
  | error raised =>
      rw [hclaims] at h
      cases h
  | ok claims =>
      rw [hclaims] at h
      dsimp only at h
      refine ⟨claims, rfl, claimsVerified_of_identityOf ?_⟩
      cases hidentity : identityOf t clientId now claims with
      | error reason =>
          rw [hidentity] at h
          cases h
      | ok found =>
          rw [hidentity] at h
          exact congrArg Except.ok (Except.ok.inj h)

end

/-! ### The callback -/

/-- What the callback asks of the clock, the pending sign-ins, the session repository, the stores
and the token endpoint. -/
inductive SignInQuestion
  | now
  | take (sessionId : Text) (now : Instant)
  | held (sessionId : Text)
  | maxAgeAccount (sessionId : Text)
  | exchange (code codeVerifier : Text)
  | time
  | store
  | upsert (identity : VerifiedIdentity) (now : Instant)
  | upsertIfRecoverable (sessionId : Text) (accountId : Uuid) (identity : VerifiedIdentity)
  | issue (previous : Text) (accountId : Uuid) (fromSignInOnly : Bool)
  | carryOver (anonymous accountId : Uuid)
  | accountFor (accountId : Uuid)
  | revoke (sessionId : Text)
  | forget (accountId : Uuid)
  | record (accountId : Uuid)

/-- A session that could not be issued, since the one before it was revoked, is none. -/
abbrev SignInAnswer : SignInQuestion → Type
  | .now => Instant
  | .take _ _ => Option PendingSignIn
  | .held _ => Option HeldSession
  | .maxAgeAccount _ => Option Uuid
  | .exchange _ _ => TokenReply
  | .time => ℚ
  | .store => Bool
  | .upsert _ _ => Option Uuid
  | .upsertIfRecoverable _ _ _ => Option Uuid
  | .issue _ _ _ => Option Text
  | .accountFor _ => Bool
  | _ => Unit

inductive SignInRaise
  | notEnabled
  | recursionError

/-- Where the browser is sent, with the session it is given. -/
inductive SignInResponse
  | failed (reason : SignInReason)
  | signedIn (sessionId : Text) (location : Text)
deriving DecidableEq

abbrev SignInHistory := History SignInAnswer

abbrev SignInScript := Script SignInRaise SignInHistory

/-- `AFTER_SIGN_IN_PATH`, or what a deletion asked for. -/
def afterSignInPath (pending : PendingSignIn) (accountId : Uuid) : Text :=
  match pending.purpose with
  | .signIn => "/ui".toList
  | .deleteAccount =>
      if some accountId = pending.expectedAccountId then "/ui?account=delete".toList
      else "/ui?account=switched".toList

section

variable (t : SignInTables) (settings : SignInSettings) (outside : Outside SignInAnswer)

/-- `exchange_code`. -/
def exchangeCode (code codeVerifier : Text) :
    SignInScript (Except ExchangeRaise VerifiedIdentity) :=
  if settings.tokenEndpointSafe = false then return .error (.failed .tokenEndpointRefused)
  else do
    let reply ← ask outside (.exchange code codeVerifier)
    match idTokenOf t reply with
    | .error raised => return .error raised
    | .ok idToken => do
      let now ← ask outside .time
      return verifyIdToken t settings.clientId idToken now

/-- The account's row, of a recovered session only while it can still be recovered. -/
def recordAccount (sessionId : Text) (recovered : Option Uuid) (identity : VerifiedIdentity) :
    SignInScript (Except SignInReason Uuid) :=
  match recovered with
  | none => do
    let now ← ask outside .now
    let accountId : Option Uuid ← ask outside (.upsert identity now)
    return accountId.elim (.error .accountNotRecorded) .ok
  | some recovered => do
    let accountId : Option Uuid ← ask outside (.upsertIfRecoverable sessionId recovered identity)
    match accountId with
    | none => return .error .noSession
    | some accountId => do
      let again : Option Uuid ← ask outside (.maxAgeAccount sessionId)
      return if again = some recovered then .ok accountId else .error .noSession

/-- `carry_over`, of the runs of another account than the one that signed in. -/
def carryOver (previous : Option HeldSession) (accountId : Uuid) : SignInScript Unit :=
  match previous with
  | none => pure ()
  | some previous =>
      if previous.accountId = accountId then pure ()
      else ask outside (.carryOver previous.accountId accountId)

/-- From the new session on. -/
def openSession (pending : PendingSignIn) (accountId : Uuid) (previous : Option HeldSession)
    (session : Text) :
    SignInScript SignInResponse := do
  carryOver outside previous accountId
  let there : Bool ← ask outside (.accountFor accountId)
  if there = false then do
    let _ ← ask outside (.revoke session)
    let _ ← ask outside (.forget accountId)
    return .failed .accountNotRecorded
  else do
    let _ ← ask outside (.record accountId)
    return .signedIn session (afterSignInPath pending accountId)

/-- From the exchanged code on. -/
def finishSignIn (sessionId : Text) (started : Option HeldSession) (recovered : Option Uuid)
    (pending : PendingSignIn) (identity : VerifiedIdentity) : SignInScript SignInResponse := do
  let stored : Bool ← ask outside .store
  if stored = false then return .failed .accountNotRecorded
  else do
    let recorded ← recordAccount outside sessionId recovered identity
    match recorded with
    | .error reason => return .failed reason
    | .ok accountId => do
      let previous ← ask outside (.held sessionId)
      let fromSignInOnly := (started.map HeldSession.signInOnly).getD false
      let issued : Option Text ← ask outside (.issue sessionId accountId fromSignInOnly)
      match issued with
      | none => return .failed .noSession
      | some session => openSession outside pending accountId previous session

/-- The account of a session that ended by its twelve hours during the round trip. -/
def recoveredAccount (sessionId : Text) (started : Option HeldSession) :
    SignInScript (Option Uuid) :=
  if started.isSome then pure none else ask outside (.maxAgeAccount sessionId)

/-- `google_sign_in_callback`, of a browser's cookie and the two parameters of its address. -/
def googleSignInCallback (cookie : Option Text) (state code : Text) : SignInScript SignInResponse :=
  if settings.enabled = false then throw .notEnabled
  else
    match cookie.filter (· ≠ []) with
    | none => return .failed .noSession
    | some sessionId => do
      let now ← ask outside .now
      let pending : Option PendingSignIn ← ask outside (.take sessionId now)
      let started : Option HeldSession ← ask outside (.held sessionId)
      let recovered ← recoveredAccount outside sessionId started
      if started.isNone ∧ recovered.isNone then return .failed .noSession
      else
        match pending with
        | none => return .failed .noPendingSignIn
        | some pending =>
            if state ≠ pending.state then return .failed .stateMismatch
            else if code = [] then return .failed .noCode
            else do
              let exchanged ← exchangeCode t settings outside code pending.codeVerifier
              match exchanged with
              | .error .recursionError => throw .recursionError
              | .error (.failed reason) => return .failed reason
              | .ok identity => finishSignIn outside sessionId started recovered pending identity

/-! ### What a callback did -/

variable {t settings outside} {sessionId state code : Text}

/-- How far a callback had come when it had taken its pending sign-in: the session is live, or it
was recovered. -/
structure SignInRound (outside : Outside SignInAnswer) (sessionId state : Text) where
  now : Instant
  pending : PendingSignIn
  started : Option HeldSession
  recovered : Option Uuid
  alive : started.isSome ≠ recovered.isSome
  taken : outside [⟨.now, now⟩] (.take sessionId now) = some pending
  matched : state = pending.state

/-- The events up to the state's comparison. -/
def begunEvents (sessionId : Text) (now : Instant) (pending : Option PendingSignIn)
    (started : Option HeldSession) (recovered : Option Uuid) : SignInHistory :=
  [⟨.now, now⟩, ⟨.take sessionId now, pending⟩, ⟨.held sessionId, started⟩] ++
    if started.isSome then [] else [⟨.maxAgeAccount sessionId, recovered⟩]

def SignInRound.events (round : SignInRound outside sessionId state) : SignInHistory :=
  begunEvents sessionId round.now (some round.pending) round.started round.recovered

/-- A round whose code was exchanged for an identity. -/
structure Identified (t : SignInTables) (settings : SignInSettings) (outside : Outside SignInAnswer)
    (sessionId state code : Text) extends
    SignInRound outside sessionId state where
  reply : TokenReply
  idToken : Text
  time : ℚ
  claims : Json
  identity : VerifiedIdentity
  read : idTokenOf t reply = .ok idToken
  decoded : claimsOf t idToken = .ok claims
  verified : ClaimsVerified t settings.clientId time claims identity

/-- The events up to the identity. -/
def Identified.exchanged (known : Identified t settings outside sessionId state code) :
    SignInHistory :=
  known.events ++ [⟨.exchange code known.pending.codeVerifier, known.reply⟩, ⟨.time, known.time⟩,
    ⟨.store, true⟩]

/-- An identity whose account has its row. -/
structure Recorded (t : SignInTables) (settings : SignInSettings) (outside : Outside SignInAnswer)
    (sessionId state code : Text) extends
    Identified t settings outside sessionId state code where
  accountId : Uuid
  written : Instant

/-- The events up to the account. -/
def Recorded.recorded (known : Recorded t settings outside sessionId state code) : SignInHistory :=
  known.exchanged ++
    match known.recovered with
    | none => [⟨.now, known.written⟩, ⟨.upsert known.identity known.written, some known.accountId⟩]
    | some recovered =>
        [⟨.upsertIfRecoverable sessionId recovered known.identity, some known.accountId⟩,
          ⟨.maxAgeAccount sessionId, some recovered⟩]

/-- An account with its new session. -/
structure Opened (t : SignInTables) (settings : SignInSettings) (outside : Outside SignInAnswer)
    (sessionId state code : Text) extends
    Recorded t settings outside sessionId state code where
  previous : Option HeldSession
  session : Text

/-- The runs that a session had before its sign-in go to the account. -/
def carryOverEvents (previous : Option HeldSession) (accountId : Uuid) : SignInHistory :=
  match previous with
  | none => []
  | some previous =>
      if previous.accountId = accountId then [] else [⟨.carryOver previous.accountId accountId, ()⟩]

/-- The events up to the new session's. -/
def Opened.opened (known : Opened t settings outside sessionId state code) : SignInHistory :=
  known.recorded ++ [⟨.held sessionId, known.previous⟩,
      ⟨.issue sessionId known.accountId ((known.started.map HeldSession.signInOnly).getD false),
        some known.session⟩] ++
    carryOverEvents known.previous known.accountId

/-- The events of a sign-in whose account has gone: its session is revoked, and the account
forgotten. -/
def Opened.withdrawn (known : Opened t settings outside sessionId state code) : SignInHistory :=
  known.opened ++ [⟨.accountFor known.accountId, false⟩, ⟨.revoke known.session, ()⟩,
    ⟨.forget known.accountId, ()⟩]

/-! ### What a callback may ask -/

variable (t settings outside sessionId state code) in
/-- A code is sent once, with its sign-in's verifier; an account's row is written for a verified
identity alone; a session is opened for the account of one; and what was opened is recorded, or
revoked with an account that is gone. -/
def signInPolicy : Policy SignInAnswer := fun before question =>
  match question with
  | .exchange sent codeVerifier => sent = code ∧ ∃ round : SignInRound outside sessionId state,
      before = round.events ∧ codeVerifier = round.pending.codeVerifier
  | .upsert identity now => ∃ known : Identified t settings outside sessionId state code,
      known.recovered = none ∧ known.identity = identity ∧ before = known.exchanged ++ [⟨.now, now⟩]
  | .upsertIfRecoverable session accountId identity => session = sessionId ∧
      ∃ known : Identified t settings outside sessionId state code,
        known.recovered = some accountId ∧ known.identity = identity ∧ before = known.exchanged
  | .issue previous accountId fromSignInOnly => previous = sessionId ∧
      ∃ known : Recorded t settings outside sessionId state code, ∃ held,
        known.accountId = accountId ∧
        (known.started.map HeldSession.signInOnly).getD false = fromSignInOnly ∧
        before = known.recorded ++ [⟨.held sessionId, held⟩]
  | .record accountId => ∃ known : Opened t settings outside sessionId state code,
      known.accountId = accountId ∧ before = known.opened ++ [⟨.accountFor accountId, true⟩]
  | .revoke session => ∃ known : Opened t settings outside sessionId state code,
      known.session = session ∧ before = known.opened ++ [⟨.accountFor known.accountId, false⟩]
  | .forget accountId => ∃ known : Opened t settings outside sessionId state code,
      known.accountId = accountId ∧
        before = known.opened ++ [⟨.accountFor accountId, false⟩, ⟨.revoke known.session, ()⟩]
  | _ => True

/-- The session that an event opened. -/
def openedSession : Event SignInAnswer → Option Text
  | ⟨.issue _ _ _, session⟩ => session
  | _ => none

/-- Each session that was opened was revoked again. -/
def NoSessionLeft (history : SignInHistory) : Prop :=
  ∀ session ∈ history.filterMap openedSession,
    (⟨.revoke session, ()⟩ : Event SignInAnswer) ∈ history

def Unopened (history : SignInHistory) : Prop := history.filterMap openedSession = []

variable (t settings outside sessionId state code) in
/-- What a callback's answer says of what it did: one that fails has opened no session, or has found
its account gone and withdrawn the session and the account. -/
def AnswerWell (response : SignInResponse) (history : SignInHistory) : Prop :=
  match response with
  | .failed reason => Unopened history ∨ reason = .accountNotRecorded ∧
      ∃ known : Opened t settings outside sessionId state code, history = known.withdrawn
  | .signedIn session location => ∃ known : Opened t settings outside sessionId state code,
      session = known.session ∧ location = afterSignInPath known.pending known.accountId ∧
        history = known.opened ++ [⟨.accountFor known.accountId, true⟩,
          ⟨.record known.accountId, ()⟩]

theorem Unopened.noSessionLeft {history : SignInHistory} (h : Unopened history) :
    NoSessionLeft history := by
  intro session hsession
  rw [h] at hsession
  cases hsession

theorem Unopened.append {history history' : SignInHistory} (h : Unopened history)
    (h' : Unopened history') :
    Unopened (history ++ history') := by
  rw [Unopened, List.filterMap_append, h, h', List.append_nil]

theorem Unopened.next {history : SignInHistory} (h : Unopened history) {event : Event SignInAnswer}
    (hevent : openedSession event = none) : Unopened (history ++ [event]) :=
  h.append (by rw [Unopened, List.filterMap_cons, hevent]; rfl)

theorem unopened_begun (sessionId : Text) (now : Instant) (pending : Option PendingSignIn)
    (started : Option HeldSession) (recovered : Option Uuid) :
    Unopened (begunEvents sessionId now pending started recovered) := by
  rw [begunEvents]
  split_ifs <;> rfl

theorem SignInRound.unopened (round : SignInRound outside sessionId state) :
    Unopened round.events :=
  unopened_begun sessionId round.now (some round.pending) round.started round.recovered

theorem Identified.unopened (known : Identified t settings outside sessionId state code) :
    Unopened known.exchanged :=
  known.toSignInRound.unopened.append rfl

theorem Recorded.unopened (known : Recorded t settings outside sessionId state code) :
    Unopened known.recorded := by
  refine known.toIdentified.unopened.append ?_
  cases known.recovered <;> rfl

theorem unopened_carryOver (previous : Option HeldSession) (accountId : Uuid) :
    Unopened (carryOverEvents previous accountId) := by
  cases previous with
  | none => rfl
  | some previous =>
      rw [carryOverEvents]
      split_ifs <;> rfl

/-- One session was opened. -/
theorem Opened.openedSessions (known : Opened t settings outside sessionId state code) :
    known.opened.filterMap openedSession = [known.session] := by
  rw [Opened.opened, List.filterMap_append, List.filterMap_append, known.toRecorded.unopened,
    unopened_carryOver known.previous known.accountId]
  rfl

theorem Opened.noSessionLeft (known : Opened t settings outside sessionId state code) :
    NoSessionLeft known.withdrawn := by
  intro session hsession
  rw [Opened.withdrawn, List.filterMap_append, known.openedSessions] at hsession
  obtain rfl := List.mem_singleton.mp hsession
  exact List.mem_append_right _ (List.mem_cons_of_mem _ List.mem_cons_self)

theorem AnswerWell.noSessionLeft {reason : SignInReason} {history : SignInHistory}
    (h : AnswerWell t settings outside sessionId state code (.failed reason) history) :
    NoSessionLeft history := by
  rcases h with hnone | ⟨-, known, rfl⟩
  · exact hnone.noSessionLeft
  · exact known.noSessionLeft

/-! ### The run of a callback -/

theorem keeps_answered {E : SignInRaise → SignInHistory → Prop} {known : SignInHistory}
    {question : SignInQuestion}
    (hpolicy : signInPolicy t settings outside sessionId state code known question) :
    Keeps (signInPolicy t settings outside sessionId state code) (fun history => history = known)
      (ask outside question)
      (fun answer history => answer = outside known question ∧
        history = known ++ [⟨question, answer⟩]) E := by
  rintro history ⟨hobeys, rfl⟩
  exact ⟨hobeys.concat hpolicy, rfl, rfl⟩

theorem keeps_next {E : SignInRaise → SignInHistory → Prop} {known : SignInHistory}
    {question : SignInQuestion}
    (hpolicy : signInPolicy t settings outside sessionId state code known question) :
    Keeps (signInPolicy t settings outside sessionId state code) (fun history => history = known)
      (ask outside question) (fun answer history => history = known ++ [⟨question, answer⟩]) E :=
  (keeps_answered hpolicy).weaken fun _ _ h => h.2

theorem keeps_carryOver {E : SignInRaise → SignInHistory → Prop} (known : SignInHistory)
    (previous : Option HeldSession) (accountId : Uuid) :
    Keeps (signInPolicy t settings outside sessionId state code) (fun history => history = known)
      (carryOver outside previous accountId)
      (fun _ history => history = known ++ carryOverEvents previous accountId) E := by
  cases previous with
  | none => exact Keeps.pure fun history h => h.trans (List.append_nil known).symm
  | some previous =>
      rw [carryOver]
      refine Keeps.ite (fun hsame => Keeps.pure fun history h => ?_) fun hother => ?_
      · rw [carryOverEvents, if_pos hsame]
        exact h.trans (List.append_nil known).symm
      · rw [carryOverEvents, if_neg hother]
        have hpolicy : signInPolicy t settings outside sessionId state code known
            (.carryOver previous.accountId accountId) := trivial
        exact keeps_next hpolicy

theorem keeps_openSession {E : SignInRaise → SignInHistory → Prop}
    (known : Opened t settings outside sessionId state code) :
    Keeps (signInPolicy t settings outside sessionId state code)
      (fun history => history = known.recorded ++ [⟨.held sessionId, known.previous⟩,
        ⟨.issue sessionId known.accountId ((known.started.map HeldSession.signInOnly).getD false),
          some known.session⟩])
      (openSession outside known.pending known.accountId known.previous known.session)
      (AnswerWell t settings outside sessionId state code) E := by
  rw [openSession]
  refine Keeps.bind (R := fun _ history => history = known.opened)
    (keeps_carryOver _ known.previous known.accountId) fun _ => ?_
  refine Keeps.bind (keeps_next trivial) fun there => ?_
  cases there with
  | false =>
      refine Keeps.bind (keeps_next ⟨known, rfl, rfl⟩) fun _ => ?_
      refine Keeps.bind (keeps_next ⟨known, rfl, by rw [List.append_assoc]; rfl⟩) fun _ =>
        Keeps.pure ?_
      rintro history rfl
      refine .inr ⟨rfl, known, ?_⟩
      rw [Opened.withdrawn, List.append_assoc, List.append_assoc]
      rfl
  | true =>
      refine Keeps.bind (keeps_next ⟨known, rfl, rfl⟩) fun _ => Keeps.pure fun history h => ?_
      exact ⟨known, rfl, rfl, h.trans (List.append_assoc _ _ _)⟩

theorem keeps_recordAccount {E : SignInRaise → SignInHistory → Prop}
    (known : Identified t settings outside sessionId state code) :
    Keeps (signInPolicy t settings outside sessionId state code) (fun history =>
      history = known.exchanged)
      (recordAccount outside sessionId known.recovered known.identity)
      (fun found history => match found with
        | .error _ => Unopened history
        | .ok accountId => ∃ recorded : Recorded t settings outside sessionId state code,
            recorded.toIdentified = known ∧ recorded.accountId = accountId ∧
              history = recorded.recorded) E := by
  cases hrecovered : known.recovered with
  | none =>
      rw [recordAccount]
      refine Keeps.bind (keeps_next trivial) fun now => ?_
      refine Keeps.bind (keeps_next ⟨known, hrecovered, rfl, rfl⟩) fun accountId => Keeps.pure ?_
      rintro history rfl
      cases accountId with
      | none => exact (known.unopened.next rfl).next rfl
      | some accountId =>
          refine ⟨⟨known, accountId, now⟩, rfl, rfl, ?_⟩
          rw [Recorded.recorded, List.append_assoc]
          dsimp only
          rw [hrecovered]
          rfl
  | some recovered =>
      rw [recordAccount]
      refine Keeps.bind (keeps_next ⟨rfl, known, hrecovered, rfl, rfl⟩) fun accountId => ?_
      cases accountId with
      | none =>
          refine Keeps.pure ?_
          rintro history rfl
          exact known.unopened.next rfl
      | some accountId =>
          refine Keeps.bind (keeps_next trivial) fun again => Keeps.pure ?_
          rintro history rfl
          split_ifs with hagain
          · refine ⟨⟨known, accountId, known.now⟩, rfl, rfl, ?_⟩
            rw [Recorded.recorded, List.append_assoc, hagain]
            dsimp only
            rw [hrecovered]
            rfl
          · exact (known.unopened.next rfl).next rfl

theorem keeps_finishSignIn {E : SignInRaise → SignInHistory → Prop}
    (known : Identified t settings outside sessionId state code) :
    Keeps (signInPolicy t settings outside sessionId state code)
      (fun history => history =
        known.events ++ [⟨.exchange code known.pending.codeVerifier, known.reply⟩,
          ⟨.time, known.time⟩])
      (finishSignIn outside sessionId known.started known.recovered known.pending known.identity)
      (AnswerWell t settings outside sessionId state code) E := by
  rw [finishSignIn]
  refine Keeps.bind (keeps_next trivial) fun stored => ?_
  refine Keeps.ite (fun _ => Keeps.pure ?_) fun hstored => ?_
  · rintro history rfl
    have hexchanged : Unopened (known.events ++
        [⟨.exchange code known.pending.codeVerifier, known.reply⟩, ⟨.time, known.time⟩]) :=
      known.toSignInRound.unopened.append rfl
    exact .inl (hexchanged.next rfl)
  obtain rfl : stored = true := Bool.of_not_eq_false hstored
  refine Keeps.bind (Keeps.strengthen (keeps_recordAccount known) fun history h => ?_)
    fun found => ?_
  · rw [h, Identified.exchanged, List.append_assoc]
    rfl
  cases found with
  | error reason => exact Keeps.pure fun _ h => .inl h
  | ok accountId =>
      rintro history ⟨hobeys, recorded, rfl, rfl, rfl⟩
      have hheld : signInPolicy t settings outside sessionId state code recorded.recorded
          (.held sessionId) := trivial
      refine Keeps.bind (keeps_next hheld) (fun previous => ?_) _ ⟨hobeys, rfl⟩
      refine Keeps.bind (keeps_next ⟨rfl, recorded, previous, rfl, rfl, rfl⟩) fun session => ?_
      cases session with
      | none =>
          refine Keeps.pure ?_
          rintro history rfl
          exact .inl ((recorded.unopened.next rfl).next rfl)
      | some session =>
          refine Keeps.strengthen (keeps_openSession ⟨recorded, previous, session⟩)
            fun history h => ?_
          rw [h, List.append_assoc]
          rfl

theorem keeps_exchangeCode {E : SignInRaise → SignInHistory → Prop}
    (round : SignInRound outside sessionId state) :
    Keeps (signInPolicy t settings outside sessionId state code) (fun history =>
      history = round.events)
      (exchangeCode t settings outside code round.pending.codeVerifier)
      (fun found history => match found with
        | .error _ => Unopened history
        | .ok identity => ∃ known : Identified t settings outside sessionId state code,
            known.toSignInRound = round ∧
            known.identity = identity ∧ history =
              round.events ++ [⟨.exchange code round.pending.codeVerifier, known.reply⟩,
                ⟨.time, known.time⟩]) E := by
  rw [exchangeCode]
  refine Keeps.ite (fun _ => Keeps.pure ?_) fun _ => ?_
  · rintro history rfl
    exact round.unopened
  refine Keeps.bind (keeps_next ⟨rfl, round, rfl, rfl⟩) fun reply => ?_
  cases hread : idTokenOf t reply with
  | error raised =>
      refine Keeps.pure ?_
      rintro history rfl
      exact round.unopened.next rfl
  | ok idToken =>
      refine Keeps.bind (keeps_next trivial) fun now => Keeps.pure ?_
      rintro history rfl
      cases hverify : verifyIdToken t settings.clientId idToken now with
      | error raised => exact (round.unopened.next rfl).next rfl
      | ok identity =>
          obtain ⟨claims, hclaims, hverified⟩ := verifyIdToken_ok hverify
          exact ⟨⟨round, reply, idToken, now, claims, identity, hread, hclaims, hverified⟩,
            rfl, rfl,
            List.append_assoc _ _ _⟩

theorem keeps_recoveredAccount {E : SignInRaise → SignInHistory → Prop} (known : SignInHistory)
    (started : Option HeldSession) :
    Keeps (signInPolicy t settings outside sessionId state code) (fun history => history = known)
      (recoveredAccount outside sessionId started)
      (fun recovered history => (started.isSome = true → recovered = none) ∧
        history = known ++
          if started.isSome then [] else [⟨.maxAgeAccount sessionId, recovered⟩]) E := by
  rw [recoveredAccount]
  cases started with
  | none =>
      refine Keeps.weaken (keeps_next trivial) fun recovered history h => ⟨fun hstarted => ?_, h⟩
      cases hstarted
  | some session =>
      exact Keeps.pure fun history h => ⟨fun _ => rfl, h.trans (List.append_nil known).symm⟩

variable (t settings outside state code) in
theorem keeps_googleSignInCallback (cookie : Option Text) :
    Keeps (signInPolicy t settings outside (cookie.getD []) state code)
      (fun history => history = [])
      (googleSignInCallback t settings outside cookie state code)
      (AnswerWell t settings outside (cookie.getD []) state code) (fun _ => Unopened) := by
  have hempty : ∀ history : SignInHistory, history = [] → Unopened history := by
    rintro history rfl
    rfl
  rw [googleSignInCallback]
  refine Keeps.ite (fun _ => Keeps.throw hempty) fun _ => ?_
  cases hcookie : cookie.filter (· ≠ []) with
  | none => exact Keeps.pure fun history h => .inl (hempty history h)
  | some sessionId =>
      obtain rfl := (Option.filter_eq_some_iff.mp hcookie).1
      refine Keeps.bind (keeps_next trivial) fun now => ?_
      refine Keeps.bind (keeps_answered trivial) fun pending => Keeps.of_fact fun htaken => ?_
      refine Keeps.bind (keeps_next trivial) fun started => ?_
      refine Keeps.bind (keeps_recoveredAccount _ started) fun recovered =>
        Keeps.of_fact fun hrecovered => ?_
      have hfailed : ∀ (reason : SignInReason) history,
          history = begunEvents sessionId now pending started recovered →
          AnswerWell t settings outside sessionId state code (.failed reason) history := by
        rintro reason history rfl
        exact .inl (unopened_begun sessionId now pending started recovered)
      refine Keeps.ite (fun _ => Keeps.pure (hfailed _)) fun halive => ?_
      cases pending with
      | none => exact Keeps.pure (hfailed _)
      | some pending =>
          refine Keeps.ite (fun _ => Keeps.pure (hfailed _)) fun hstate => ?_
          refine Keeps.ite (fun _ => Keeps.pure (hfailed _)) fun _ => ?_
          have hround : started.isSome ≠ recovered.isSome := by
            cases started with
            | some session => simp [hrecovered rfl]
            | none =>
                cases recovered with
                | none => exact absurd ⟨rfl, rfl⟩ halive
                | some accountId => exact Bool.false_ne_true
          have hmatched : state = pending.state := not_not.mp hstate
          refine Keeps.bind
            (keeps_exchangeCode ⟨now, pending, started, recovered, hround, htaken.symm, hmatched⟩)
              fun exchanged => ?_
          cases exchanged with
          | error raised =>
              cases raised with
              | failed reason => exact Keeps.pure fun history h => .inl h
              | recursionError => exact Keeps.throw fun history h => h
          | ok identity =>
              rintro history ⟨hobeys, known, hknown, rfl, rfl⟩
              have hfinish : Keeps (signInPolicy t settings outside sessionId state code) _
                  (finishSignIn outside sessionId known.started known.recovered known.pending
                    known.identity)
                  (AnswerWell t settings outside sessionId state code) (fun _ => Unopened) :=
                keeps_finishSignIn known
              rw [hknown] at hfinish
              exact hfinish _ ⟨hobeys, rfl⟩

end

/-! ### The table of pending sign-ins -/

/-- The outside whose takes the table answers, after the calls that were made of it. -/
def withPending (calls : List SignInCall) (outside : Outside SignInAnswer) : Outside SignInAnswer :=
  fun history question =>
    match question with
    | .take sessionId now => ((pendingAfter calls).take sessionId now).1
    | question => outside history question

/-- A session's last call of the table began the sign-in, within its lifetime. -/
def BegunLast (calls : List SignInCall) (sessionId : Text) (pending : PendingSignIn)
    (now : Instant) : Prop :=
  (∃ earlier later, calls = earlier ++ .begin sessionId pending :: later ∧ ∀ call ∈ later,
    call.sessionId ≠ sessionId) ∧
    now.val ≤ pending.startedAt.val + signInStateTtl

section

variable (t : SignInTables) (settings : SignInSettings) (calls : List SignInCall)
  (outside : Outside SignInAnswer) (cookie : Option Text) (state code : Text)

/-- Whatever else the process does meanwhile, and whatever Google answers. A browser is signed in
only by the sign-in that its own session began last, with the state of it, for an identity that the
endpoint vouched for against its verifier; the account's row, the new session and the record of it
are that identity's, in this order and once each. A callback that fails or raises leaves no session,
and has written no account but of such an identity: it has opened none, or has found the account of
the new session gone, and then revoked the session and forgotten the account. -/
theorem google_sign_in_callback_agrees :
    Obeys (signInPolicy t settings (withPending calls outside) (cookie.getD []) state code)
        (Transaction.after
          (googleSignInCallback t settings (withPending calls outside) cookie state code) []) ∧
      match googleSignInCallback t settings (withPending calls outside) cookie state code [] with
      | .error _ history => Unopened history
      | .ok (.failed reason) history => NoSessionLeft history ∧
          (Unopened history ∨ reason = .accountNotRecorded ∧
            ∃ known : Opened t settings (withPending calls outside) (cookie.getD []) state code,
              history = known.opened ++ [⟨.accountFor known.accountId, false⟩,
                ⟨.revoke known.session, ()⟩,
                ⟨.forget known.accountId, ()⟩])
      | .ok (.signedIn session location) history =>
          ∃ known : Opened t settings (withPending calls outside) (cookie.getD []) state code,
            session = known.session ∧ location = afterSignInPath known.pending known.accountId ∧
              history = known.opened ++ [⟨.accountFor known.accountId, true⟩,
                ⟨.record known.accountId, ()⟩] ∧
              BegunLast calls (cookie.getD []) known.pending known.now := by
  have hrun :=
    keeps_googleSignInCallback t settings (withPending calls outside) state code cookie []
    ⟨obeys_nil _, rfl⟩
  rw [Transaction.after]
  cases hx : googleSignInCallback t settings (withPending calls outside) cookie state code [] with
  | error raised history =>
      rw [hx] at hrun
      exact hrun
  | ok response history =>
      rw [hx] at hrun
      refine ⟨hrun.1, ?_⟩
      cases response with
      | failed reason => exact ⟨hrun.2.noSessionLeft, hrun.2⟩
      | signedIn session location =>
          obtain ⟨known, hsession, hlocation, hhistory⟩ := hrun.2
          obtain ⟨hopen, hfresh⟩ := openSignIn_of_take known.taken
          exact ⟨known, hsession, hlocation, hhistory, begin_of_openSignIn hopen, hfresh⟩

end

/-- A first sign-in that completes, where every answer of the endpoint reads as one token. -/
def visitTables : SignInTables where
  isspace := Char.isWhitespace
  loads := fun _ => .value (.obj [("id_token", .str "a.b.c".toList)])
  decodeSegment :=
    fun _ => .value (.obj [("iss", .str "accounts.google.com".toList), ("aud", .str ['q']),
    ("exp", .int 10), ("iat", .int 1), ("email_verified", .bool true), ("sub", .str ['7']),
      ("email", .str ['e'])])

def visitOutside : Outside SignInAnswer := fun _ question =>
  match question with
  | .now => ⟨0, instants_pos⟩
  | .take _ _ => none
  | .held _ => some ⟨['a'], 1, [], ⟨0, instants_pos⟩, ⟨0, instants_pos⟩, 0, false, 0, true⟩
  | .maxAgeAccount _ => none
  | .exchange _ _ => .replied 200 []
  | .time => 2
  | .store => true
  | .upsert _ _ => some 7
  | .upsertIfRecoverable _ _ _ => none
  | .issue _ _ _ => some ['n']
  | .accountFor _ => true
  | .carryOver _ _ => ()
  | .revoke _ => ()
  | .forget _ => ()
  | .record _ => ()

example : Transaction.answered (googleSignInCallback visitTables ⟨true, ['q'], true⟩
    (withPending [.begin ['a'] signInVisit] visitOutside) (some ['a']) ['s'] ['c']) [] =
      some (.signedIn ['n'] "/ui".toList) := by
  decide +kernel

end Quorum
