import Quorum.BaseIsoTime
import Quorum.BaseLru
import Quorum.CostTypes

/-! Started sign-ins (`google_signin.PendingSignIns`): one entry a session, in the order they were
started. A sign-in is open from a session's begin to its next call, and the table is some part of
the open ones. -/

namespace Quorum

open IsoTime

/-- `SIGN_IN_STATE_TTL`, ten minutes. -/
def signInStateTtl : ℕ := 600 * microsPerSecond

def maxPendingSignIns : ℕ := 10000

inductive SignInPurpose
  | signIn
  | deleteAccount
deriving DecidableEq

structure PendingSignIn where
  state : Text
  codeVerifier : Text
  startedAt : Instant
  purpose : SignInPurpose := .signIn
  expectedAccountId : Option Uuid := none
deriving DecidableEq

/-- Older than its lifetime. -/
def PendingSignIn.expired (now : Instant) (pending : PendingSignIn) : Bool :=
  pending.startedAt.val + signInStateTtl < now.val

/-- The started sign-ins by session, never more than the table may hold. -/
structure PendingSignIns where
  entries : Dict Text PendingSignIn
  bounded : entries.size ≤ maxPendingSignIns

namespace PendingSignIns

def empty : PendingSignIns := ⟨.empty, Nat.zero_le _⟩

/-- `_purge_locked`. -/
def purge (now : Instant) (entries : Dict Text PendingSignIn) : Dict Text PendingSignIn :=
  entries.filter fun entry => !entry.2.expired now

/-- The oldest entries go until there is room for one more. -/
def begin (table : PendingSignIns) (sessionId : Text) (pending : PendingSignIn) :
    PendingSignIns where
  entries :=
    (((purge pending.startedAt table.entries).pop sessionId).trim (maxPendingSignIns - 1)).set
    sessionId pending
  bounded := (Dict.size_set_le _ _ _).trans (Nat.succ_le_succ (Dict.size_trim_le _ _))

/-- The session's entry is removed whether or not it is still fresh. -/
def take (table : PendingSignIns) (sessionId : Text) (now : Instant) :
    Option PendingSignIn × PendingSignIns :=
  ((table.entries.get? sessionId).filter fun pending => !pending.expired now,
    { entries := purge now (table.entries.pop sessionId)
      bounded := ((Dict.size_filter_le _ _).trans (Dict.size_pop_le _ _)).trans table.bounded })

def discard (table : PendingSignIns) (sessionId : Text) : PendingSignIns where
  entries := table.entries.pop sessionId
  bounded := (Dict.size_pop_le _ _).trans table.bounded

theorem entries_begin (table : PendingSignIns) (sessionId : Text) (started : PendingSignIn) :
    (table.begin sessionId started).entries =
      (((purge started.startedAt table.entries).pop sessionId).trim (maxPendingSignIns - 1)).set
        sessionId started := by
  rw [begin]

theorem get?_of_begin {table : PendingSignIns} {sessionId session : Text}
    {started pending : PendingSignIn}
    (h : (table.begin sessionId started).entries.get? session = some pending) :
    (session = sessionId ∧ started = pending) ∨
      (session ≠ sessionId ∧
        (purge started.startedAt table.entries).get? session = some pending) := by
  rw [entries_begin, Dict.get?_set] at h
  by_cases hsession : session = sessionId
  · rw [if_pos hsession] at h
    exact .inl ⟨hsession, Option.some.inj h⟩
  · rw [if_neg hsession, Dict.get?_trim] at h
    split at h
    · cases h
    · rw [Dict.get?_pop_of_ne _ hsession] at h
      exact .inr ⟨hsession, h⟩

theorem get?_of_purge {now : Instant} {entries : Dict Text PendingSignIn} {sessionId : Text}
    {pending : PendingSignIn} (h : (purge now entries).get? sessionId = some pending) :
    entries.get? sessionId = some pending := by
  rw [purge, Dict.get?_filter, Option.filter_eq_some_iff] at h
  exact h.1

end PendingSignIns

/-- A call of the table. A begin brings the entry it has made, with the time it was made at. -/
inductive SignInCall
  | begin (sessionId : Text) (pending : PendingSignIn)
  | take (sessionId : Text) (now : Instant)
  | discard (sessionId : Text)

namespace SignInCall

def sessionId : SignInCall → Text
  | begin sessionId _ => sessionId
  | take sessionId _ => sessionId
  | discard sessionId => sessionId

/-- The time a call reads. -/
def now? : SignInCall → Option Instant
  | begin _ pending => some pending.startedAt
  | take _ now => some now
  | discard _ => none

/-- The state a call generates. -/
def state? : SignInCall → Option Text
  | begin _ pending => some pending.state
  | _ => none

def apply (table : PendingSignIns) : SignInCall → PendingSignIns
  | begin sessionId pending => table.begin sessionId pending
  | take sessionId now => (table.take sessionId now).2
  | discard sessionId => table.discard sessionId

/-- The sign-in that a call leaves open for its session. -/
def opens? : SignInCall → Option PendingSignIn
  | begin _ pending => some pending
  | take _ _ => none
  | discard _ => none

/-- What a call makes of a session's open sign-in. -/
def reopen (session : Text) (opened : Option PendingSignIn) (call : SignInCall) :
    Option PendingSignIn :=
  if call.sessionId = session then call.opens? else opened

end SignInCall

/-- The table after calls, oldest first. -/
def pendingAfter (calls : List SignInCall) : PendingSignIns := calls.foldl SignInCall.apply .empty

/-- The sign-in that a session has begun and has not called about since. -/
def openSignIn (session : Text) (calls : List SignInCall) : Option PendingSignIn :=
  calls.foldl (SignInCall.reopen session) none

/-- A call leaves no session an entry that is not its open sign-in. -/
theorem SignInCall.get?_apply {table : PendingSignIns} {call : SignInCall} {session : Text}
    {opened : Option PendingSignIn} {pending : PendingSignIn}
    (htable : ∀ pending, table.entries.get? session = some pending → opened = some pending)
    (h : (call.apply table).entries.get? session = some pending) :
    call.reopen session opened = some pending := by
  rw [SignInCall.reopen]
  cases call with
  | begin sessionId started =>
      rcases PendingSignIns.get?_of_begin h with ⟨rfl, rfl⟩ | ⟨hsession, hpurge⟩
      · rw [SignInCall.sessionId, if_pos rfl, SignInCall.opens?]
      · rw [SignInCall.sessionId, if_neg (Ne.symm hsession)]
        exact htable pending (PendingSignIns.get?_of_purge hpurge)
  | take sessionId now =>
      have hpop := PendingSignIns.get?_of_purge h
      by_cases hsession : session = sessionId
      · rw [hsession, Dict.get?_pop_self] at hpop
        cases hpop
      · rw [Dict.get?_pop_of_ne _ hsession] at hpop
        rw [SignInCall.sessionId, if_neg (Ne.symm hsession)]
        exact htable pending hpop
  | discard sessionId =>
      rw [SignInCall.apply, PendingSignIns.discard] at h
      by_cases hsession : session = sessionId
      · rw [hsession, Dict.get?_pop_self] at h
        cases h
      · rw [Dict.get?_pop_of_ne _ hsession] at h
        rw [SignInCall.sessionId, if_neg (Ne.symm hsession)]
        exact htable pending h

/-- The table holds nothing but open sign-ins. -/
theorem openSignIn_of_get? (calls : List SignInCall) {session : Text} {pending : PendingSignIn}
    (h : (pendingAfter calls).entries.get? session = some pending) :
    openSignIn session calls = some pending := by
  induction calls using List.reverseRecOn generalizing pending with
  | nil => cases h
  | append_singleton calls call ih =>
      rw [pendingAfter, List.foldl_append] at h
      rw [openSignIn, List.foldl_append]
      exact SignInCall.get?_apply (fun _ => ih) h

/-- An open sign-in is the session's last call. -/
theorem begin_of_openSignIn {calls : List SignInCall} {session : Text} {pending : PendingSignIn}
    (h : openSignIn session calls = some pending) :
    ∃ earlier later, calls = earlier ++ .begin session pending :: later ∧
      ∀ call ∈ later, call.sessionId ≠ session := by
  induction calls using List.reverseRecOn with
  | nil => cases h
  | append_singleton calls call ih =>
      rw [openSignIn, List.foldl_append] at h
      change call.reopen session (openSignIn session calls) = some pending at h
      rw [SignInCall.reopen] at h
      split at h
      · rename_i hsession
        cases call with
        | begin sessionId started =>
            cases h
            cases hsession
            exact ⟨calls, [], rfl, fun _ hmem => absurd hmem List.not_mem_nil⟩
        | take sessionId now => cases h
        | discard sessionId => cases h
      · rename_i hsession
        obtain ⟨earlier, later, rfl, hlater⟩ := ih h
        refine ⟨earlier, later ++ [call], by simp, fun other hother => ?_⟩
        rcases List.mem_append.mp hother with hother | hother
        · exact hlater other hother
        · rw [List.mem_singleton.mp hother]
          exact hsession

/-- What a take returns is its session's open sign-in, still fresh. -/
theorem openSignIn_of_take {calls : List SignInCall} {session : Text} {now : Instant}
    {pending : PendingSignIn} (h : ((pendingAfter calls).take session now).1 = some pending) :
    openSignIn session calls = some pending ∧ now.val ≤ pending.startedAt.val + signInStateTtl := by
  obtain ⟨hget, hfresh⟩ := Option.filter_eq_some_iff.mp h
  refine ⟨openSignIn_of_get? calls hget, ?_⟩
  simpa [PendingSignIn.expired] using hfresh

/-- The calls generate distinct states. -/
def DistinctStates (calls : List SignInCall) : Prop := (calls.filterMap SignInCall.state?).Nodup

/-- The calls read times in the order they are made in. -/
def ClockOrder (calls : List SignInCall) : Prop :=
  (calls.filterMap SignInCall.now?).Pairwise (· ≤ ·)

theorem DistinctStates.pairwise {calls : List SignInCall} (h : DistinctStates calls) :
    calls.Pairwise fun call call' =>
      ∀ state ∈ call.state?, ∀ state' ∈ call'.state?, state ≠ state' :=
  List.pairwise_filterMap.mp h

/-- Two begins of one state are the same call. -/
theorem DistinctStates.state_ne {before after : List SignInCall}
    (h : DistinctStates (before ++ after))
    {session session' : Text} {pending pending' : PendingSignIn}
    (hbegin : .begin session pending ∈ before)
    (hbegin' : .begin session' pending' ∈ after ∨ .begin session' pending' ∈ before ∧
      session' ≠ session) :
    pending.state ≠ pending'.state := by
  obtain ⟨hbefore, _, hacross⟩ := List.pairwise_append.mp h.pairwise
  rcases hbegin' with hafter | ⟨hsame, hne⟩
  · exact hacross _ hbegin _ hafter _ rfl _ rfl
  · have hsymm : Std.Symm fun call call' : SignInCall =>
        ∀ state ∈ call.state?, ∀ state' ∈ call'.state?, state ≠ state' :=
      ⟨fun _ _ hdiffer state hstate state' hstate' => (hdiffer state' hstate' state hstate).symm⟩
    refine hbefore.forall hbegin hsame ?_ _ rfl _ rfl
    intro heq
    cases heq
    exact hne rfl

/-- For any calls of any sessions in clock order whose states are distinct. A take returns what the
latest begin of its own session made, with no call of that session in between, within the state's
lifetime; two takes never return one state; and the table keeps to its maximum with one entry a
session. -/
theorem pending_sign_in_taken_once (calls : List SignInCall) (hclock : ClockOrder calls)
    (hdistinct : DistinctStates calls) :
    (∀ before after session now pending, calls = before ++ .take session now :: after →
      ((pendingAfter before).take session now).1 = some pending →
      (∃ earlier later, before = earlier ++ .begin session pending :: later ∧
        ∀ call ∈ later, call.sessionId ≠ session) ∧
      pending.startedAt ≤ now ∧ now.val ≤ pending.startedAt.val + signInStateTtl) ∧
    (∀ before middle after session session' now now' pending pending',
      calls = before ++ .take session now :: middle ++ .take session' now' :: after →
      ((pendingAfter before).take session now).1 = some pending →
      ((pendingAfter (before ++ .take session now :: middle)).take session' now').1 =
        some pending' →
      pending.state ≠ pending'.state) ∧
    ∀ before after, calls = before ++ after →
      (pendingAfter before).entries.size ≤ maxPendingSignIns ∧
      (pendingAfter before).entries.keys.Nodup := by
  refine ⟨?_, ?_,
    fun before _ _ => ⟨(pendingAfter before).bounded, (pendingAfter before).entries.nodup⟩⟩
  · intro before after session now pending hcalls htake
    obtain ⟨hopen, hfresh⟩ := openSignIn_of_take htake
    obtain ⟨earlier, later, rfl, hlater⟩ := begin_of_openSignIn hopen
    refine ⟨⟨earlier, later, rfl, hlater⟩, ?_, hfresh⟩
    have hpairwise := List.pairwise_filterMap.mp hclock
    rw [hcalls] at hpairwise
    have hacross := (List.pairwise_append.mp hpairwise).2.2
    exact hacross _ (List.mem_append_right earlier List.mem_cons_self) _
      List.mem_cons_self _ rfl _ rfl
  · intro before middle after session session' now now' pending pending' hcalls htake htake'
    obtain ⟨earlier, later, hbegin, _⟩ := begin_of_openSignIn (openSignIn_of_take htake).1
    obtain ⟨earlier', later', hbegin', hlater'⟩ := begin_of_openSignIn (openSignIn_of_take htake').1
    have hmem : SignInCall.begin session pending ∈ before := by
      rw [hbegin]
      exact List.mem_append_right earlier List.mem_cons_self
    rw [hcalls, List.append_assoc] at hdistinct
    apply hdistinct.state_ne hmem
    -- the second begin stands after the first take, or the first take stands after it
    rcases List.append_eq_append_iff.mp hbegin' with ⟨rest, hearlier, hrest⟩ |
      ⟨rest, hbefore, hrest⟩
    · left
      have hin : SignInCall.begin session' pending' ∈ SignInCall.take session now :: middle := by
        rw [hrest]
        exact List.mem_append_right rest List.mem_cons_self
      exact List.mem_append_left _ hin
    · cases rest with
      | nil =>
          rw [List.nil_append] at hrest
          exact absurd (List.cons.inj hrest).1 nofun
      | cons first rest =>
          obtain ⟨rfl, hlater⟩ := List.cons.inj hrest
          right
          refine ⟨?_, fun heq => ?_⟩
          · rw [hbefore]
            exact List.mem_append_right earlier' List.mem_cons_self
          · refine hlater' (.take session now) ?_ heq.symm
            rw [hlater]
            exact List.mem_append_right rest List.mem_cons_self

/-- A sign-in that Google sends back within the same second. -/
def signInVisit : PendingSignIn where
  state := ['s']
  codeVerifier := ['v']
  startedAt := ⟨0, instants_pos⟩

/-- The sign-in of another state. -/
def otherVisit (state : Char) : PendingSignIn := { signInVisit with state := [state] }

/-- When the browsers come back. -/
def visitBack : Instant := signInVisit.startedAt.ahead 1

/-- The first session starts a second sign-in before the second session's returns. -/
def visitBegins : List SignInCall :=
  [.begin ['a'] (otherVisit 'f'), .begin ['b'] (otherVisit 'b'), .begin ['a'] signInVisit]

def visitCalls : List SignInCall := visitBegins ++ [.take ['a'] visitBack, .take ['b'] visitBack]

/-- The first session gets the sign-in that replaced its earlier one, the second its own, and the
table has an entry for each. -/
theorem pending_sign_in_taken_once_visit :
    (∃ earlier later, visitBegins = earlier ++ .begin ['a'] signInVisit :: later ∧
      ∀ call ∈ later, call.sessionId ≠ ['a']) ∧
    signInVisit.state ≠ (otherVisit 'b').state ∧
    (pendingAfter visitBegins).entries.keys.Nodup ∧
    (pendingAfter visitBegins).entries.size = 2 := by
  have hclock : ClockOrder visitCalls := by
    unfold ClockOrder
    decide +kernel
  have hdistinct : DistinctStates visitCalls := by
    unfold DistinctStates
    decide +kernel
  obtain ⟨hlatest, honce, htable⟩ := pending_sign_in_taken_once visitCalls hclock hdistinct
  refine ⟨?_, ?_, (htable visitBegins _ rfl).2, by decide +kernel⟩
  · exact (hlatest visitBegins _ ['a'] visitBack signInVisit rfl (by decide +kernel)).1
  · exact honce visitBegins [] [] ['a'] ['b'] visitBack visitBack signInVisit (otherVisit 'b') rfl
      (by decide +kernel) (by decide +kernel)

end Quorum
