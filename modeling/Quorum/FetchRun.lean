import Quorum.FetchEgress

/-! The fetch of an answer's cited pages (`source_fetcher.fetch_cited_pages`): one row for each
address, in order, with robots.txt read once for each origin, under one deadline and the caps on
pages. -/

namespace Quorum

open Inquiry Transaction

def maxPagesPerHost : ℕ := 4

def fetchUserAgent : Text := "quorum-ai-source-check/0.1 (+https://quorum.stackclimb.com)".toList

/-- What one call of `fetch_cited_pages` is given, beside the addresses. -/
structure FetchCall where
  budgetSeconds : ℚ
  perRecvSeconds : ℚ
  maxBytes : ℕ
  maxPages : ℕ
  maxTextChars : ℕ
  maxPdfBytes : ℕ
  respectRobots : Bool
  longPages : Bool

def FetchCall.limits (call : FetchCall) (deadline : ℚ) : FetchLimits :=
  { deadline, perRecvSeconds := call.perRecvSeconds, maxBytes := call.maxBytes,
    maxTextChars := call.maxTextChars
    maxPdfBytes := call.maxPdfBytes, longPages := call.longPages }

/-- The limits of a robots.txt: as sent, and never a long page. -/
def FetchCall.robotsLimits (call : FetchCall) (deadline : ℚ) : FetchLimits :=
  { call.limits deadline with raw := true, longPages := false }

/-- What was read of a robots.txt, as the matcher takes it. -/
abbrev RobotsReading := Option ℕ × Option Text

/-- `_robots_reading`. -/
def robotsReading (row : FetchedRow) : RobotsReading :=
  if row.outcome = .fetched ∧ row.truncated = false then (row.progress.finalStatus, some row.text)
  else
    (if row.outcome = .httpError ∨
      row.outcome = .refusedRedirect then row.progress.finalStatus else none, none)

/-- What the loop holds between two addresses. -/
structure FetchLoop where
  rows : List FetchedRow
  seen : List Text
  perHost : Dict Text ℕ
  robots : Dict Text RobotsReading
  attempted : ℕ

section

variable (t : FetchTables) (outside : Outside FetchAnswer) (call : FetchCall)

/-- The raw fetch of an origin's robots.txt. -/
def readRobots (deadline : ℚ) (origin : Text) : FetchScript FetchRaise RobotsReading := do
  let fetched ← fetchOne t outside (call.robotsLimits deadline) () (fun _ => pure (.allowed, ()))
    (origin ++ "/robots.txt".toList)
  return robotsReading fetched.1

/-- `permit`: one robots.txt read for each origin of a call. -/
def permit (deadline : ℚ) (robots : Dict Text RobotsReading) (url : Text) (target : PageTarget) :
    FetchScript FetchRaise (RobotsVerdict × Dict Text RobotsReading) :=
  match robots.get? target.origin with
  | some reading => pure (verdictOn t.toTextTables reading.1 reading.2 url fetchUserAgent, robots)
  | none => do
      let reading ← readRobots t outside call deadline target.origin
      return (verdictOn t.toTextTables reading.1 reading.2 url fetchUserAgent,
        robots.set target.origin reading)

/-- The host that the pages are counted for. -/
def FetchTables.hostKey (url : Text) : Text :=
  let netloc := (urlsplit url).netloc
  if t.netlocOk netloc then t.lower (((t.hostname netloc).getD []).rdropWhile (· = '.')) else []

/-- The caps are spent, or the budget is. The clock is read only while pages are left. -/
def capsSpent (deadline : ℚ) (loop : FetchLoop) (host : Text) : FetchScript FetchRaise Bool :=
  if call.maxPages ≤ loop.attempted then pure true
  else do
    let now : ℚ ← ask outside .clock
    return deadline ≤ now ∨ maxPagesPerHost ≤ (loop.perHost.get? host).getD 0

/-- A fetch of the loop: with robots.txt where the call respects it. -/
def fetchPage (deadline : ℚ) (robots : Dict Text RobotsReading) (url : Text) :
    FetchScript FetchRaise (FetchedRow × Dict Text RobotsReading) :=
  fetchOne t outside (call.limits deadline) robots
    (fun target => if call.respectRobots then permit t outside call deadline robots url target
      else pure (.allowed, robots)) url

/-- One address of the loop. -/
def fetchStep (deadline : ℚ) (loop : FetchLoop) (raw : Text) : FetchScript FetchRaise FetchLoop :=
  let url := t.canonicalAddress raw
  if url = [] ∨ url ∈ loop.seen then pure loop
  else do
    let seen := loop.seen ++ [url]
    let host := t.hostKey url
    let started : ℚ ← ask outside .clock
    let spent ← capsSpent outside call deadline loop host
    if spent then
      let row ← fetchRow outside url started { outcome := .skippedCap }
      return { loop with rows := loop.rows ++ [row], seen }
    else
      let fetched ← fetchPage t outside call deadline loop.robots url
      return { rows := loop.rows ++ [fetched.1], seen, attempted := loop.attempted + 1, robots := fetched.2
               perHost := loop.perHost.set host ((loop.perHost.get? host).getD 0 + 1) }

/-- The loop. -/
def fetchLoop (deadline : ℚ) : FetchLoop → List Text → FetchScript FetchRaise FetchLoop
  | loop, [] => pure loop
  | loop, raw :: urls => do
      let loop ← fetchStep t outside call deadline loop raw
      fetchLoop deadline loop urls

/-- `fetch_cited_pages`. -/
def fetchCitedPages (urls : List Text) : FetchScript FetchRaise (List FetchedRow) := do
  let now : ℚ ← ask outside .clock
  let loop ← fetchLoop t outside call (now + call.budgetSeconds)
    { rows := [], seen := [], perHost := Dict.empty, robots := Dict.empty, attempted := 0 } urls
  return loop.rows

end

/-! ### What a call may dial -/

/-- What no later event changes. -/
def Persists (P : FetchHistory → Prop) : Prop := ∀ history event, P history → P (history ++ [event])

def requests (history : FetchHistory) : ℕ := asked FetchQuestion.isRequest history

/-- What persists, with a bound on the requests. -/
def Counted (K : FetchHistory → Prop) (bound : ℕ) (history : FetchHistory) : Prop :=
  K history ∧ requests history ≤ bound

theorem Persists.quiet {K : FetchHistory → Prop} (hK : Persists K) (bound : ℕ) :
    Quiet (Counted K bound) := by
  intro history event hrequest h
  refine ⟨hK history event h.1, ?_⟩
  rw [requests, asked_concat, hrequest, if_neg Bool.false_ne_true]
  exact h.2

theorem Persists.sends {K : FetchHistory → Prop} (hK : Persists K) {gate : DialGate}
    {limits : FetchLimits} {permitted : Dial → Prop}
    (hgate : ∀ history dial, permitted dial → K history → gate history dial limits) (bound : ℕ) :
    Sends gate limits permitted (Counted K bound) (Counted K (bound + 1)) where
  quiet := hK.quiet bound
  quiet' := hK.quiet (bound + 1)
  weaken := fun _ h => ⟨h.1, h.2.trans (Nat.le_succ bound)⟩
  gate := fun history dial hdial h => hgate history dial hdial h.1
  sent := fun history dial answer h => by
    refine ⟨hK history _ h.1, ?_⟩
    rw [requests, asked_concat]
    exact Nat.add_le_add_right h.2 1

/-- The connection goes to the target. -/
structure Dial.GoesTo (dial : Dial) (target : PageTarget) : Prop where
  secure : dial.secure = target.secure
  host : dial.host = target.host
  port : dial.port = target.port
  path : dial.path = target.path

section

variable (t : FetchTables) (outside : Outside FetchAnswer) (call : FetchCall) (deadline : ℚ)

/-- The robots.txt of the origin was read to its end, with this reading. -/
def RobotsRead (origin : Text) (reading : RobotsReading) (history : FetchHistory) : Prop :=
  ∃ earlier read later, readRobots t outside call deadline origin earlier = .ok reading read ∧
    history = read ++ later

/-- What robots.txt of the target's origin was read to say of an address. -/
def RobotsSaid (verdict : RobotsVerdict) (url : Text) (target : PageTarget)
    (history : FetchHistory) : Prop :=
  ∃ reading, RobotsRead t outside call deadline target.origin reading history ∧
    verdictOn t.toTextTables reading.1 reading.2 url fetchUserAgent = verdict

/-- A page that may be dialled: robots.txt was read before, and allows it, where the call respects
it. -/
def PageAllowed (url : Text) (target : PageTarget) (history : FetchHistory) : Prop :=
  t.acceptUrl url = .ok target ∧
    (call.respectRobots = true → RobotsSaid t outside call deadline .allowed url target history)

/-- The robots.txt of an accepted page, where the call respects it. -/
def IsRobotsOf (url : Text) (dial : Dial) : Prop :=
  call.respectRobots = true ∧ ∃ target robots, t.acceptUrl url = .ok target ∧
    t.acceptUrl (target.origin ++ "/robots.txt".toList) = .ok robots ∧ dial.GoesTo robots

/-- What a call may dial, and the limits of what it reads there: the cited pages that are allowed,
and, as sent, the robots.txt of their origins. -/
def dialGate (urls : List Text) : DialGate := fun history dial limits =>
  ∃ raw ∈ urls, (limits = call.robotsLimits deadline ∧
    IsRobotsOf t call (t.canonicalAddress raw) dial) ∨
    (limits = call.limits deadline ∧
      ∃ target, PageAllowed t outside call deadline (t.canonicalAddress raw) target history ∧
        dial.GoesTo target)

/-- What a call may ask. -/
def callPolicy (urls : List Text) : Policy FetchAnswer :=
  egress t (call.limits deadline) (dialGate t outside call deadline urls)

end

/-! ### One fetch -/

def FetchedRow.facts (row : FetchedRow) : PageFacts :=
  { outcome := row.outcome, progress := row.progress, truncated := row.truncated, text := row.text }

section

variable {t : FetchTables} {outside : Outside FetchAnswer} {limits : FetchLimits} {gate : DialGate}
  {ε : Type} {E : ε → FetchHistory → Prop}

theorem keeps_fetchRow {P : FetchHistory → Prop} {E : FetchRaise → FetchHistory → Prop}
    (hP : Still P) (url : Text) (started : ℚ) (facts : PageFacts) :
    Keeps (egress t limits gate) P (fetchRow outside url started facts)
      (fun row history => P history ∧ row.url = url ∧ row.facts = facts) E := by
  rw [fetchRow]
  refine Keeps.bind (keeps_ask hP rfl rfl fun _ _ => trivial) fun now => ?_
  refine Keeps.bind (keeps_ask hP rfl rfl fun _ _ => trivial) fun fetchedAt => ?_
  exact Keeps.pure fun _ h => ⟨h, rfl, rfl⟩

/-- How a fetch ends: refused before anything is asked, stopped by robots.txt, or fetched. -/
inductive FetchEnds {κ : Type} (t : FetchTables) (limits : FetchLimits) (url : Text)
    (P : FetchHistory → Prop) (Q : PageTarget → RobotsVerdict → κ → FetchHistory → Prop)
    (Q' : PageTarget → κ → FetchHistory → Prop) (known : κ) (facts : PageFacts) (learnt : κ)
    (history : FetchHistory) :
    Prop
  | refused {outcome : FetchOutcome} (hurl : t.acceptUrl url = .error outcome)
      (hfacts : facts = { outcome })
      (hlearnt : learnt = known) (h : P history)
  | stopped {target : PageTarget} {verdict : RobotsVerdict} (hurl : t.acceptUrl url = .ok target)
      (hfacts : (verdict = .refused ∧ facts = { outcome := .refusedRobots }) ∨
        (verdict = .unchecked ∧ facts = { outcome := .robotsUnchecked }))
      (h : Q target verdict learnt history)
  | fetched {target : PageTarget} (hurl : t.acceptUrl url = .ok target)
      (hfacts : FactsWell t limits (·.GoesTo target) facts history) (h : Q' target learnt history)

theorem FetchEnds.still {κ : Type} {url : Text} {P : FetchHistory → Prop}
    {Q : PageTarget → RobotsVerdict → κ → FetchHistory → Prop}
    {Q' : PageTarget → κ → FetchHistory → Prop} {known : κ} (hP : Still P)
    (hQ : ∀ target verdict learnt, Still (Q target verdict learnt))
    (hQ' : ∀ target learnt, t.acceptUrl url = .ok target → Still (Q' target learnt))
    (facts : PageFacts) (learnt : κ) :
    Still (FetchEnds t limits url P Q Q' known facts learnt) := by
  intro history event hexchange hread h
  cases h with
  | refused hurl hfacts hlearnt h =>
      exact .refused hurl hfacts hlearnt (hP history event hexchange hread h)
  | stopped hurl hfacts h => exact .stopped hurl hfacts (hQ _ _ _ history event hexchange hread h)
  | fetched hurl hfacts h =>
      exact .fetched hurl (hfacts.concat event) (hQ' _ _ hurl history event hexchange hread h)

/-- A fetch keeps to the policy where asking for permission does, and what it is permitted may be
dialled. -/
theorem keeps_fetchOne {κ : Type} {known : κ}
    {permit : PageTarget → FetchScript FetchRaise (RobotsVerdict × κ)}
    {url : Text} {P : FetchHistory → Prop}
    {Q : PageTarget → RobotsVerdict → κ → FetchHistory → Prop}
    {Q' : PageTarget → κ → FetchHistory → Prop} {E : FetchRaise → FetchHistory → Prop}
    (hP : Still P) (hQ : ∀ target verdict learnt, Still (Q target verdict learnt))
    (hpermit : ∀ target, t.acceptUrl url = .ok target →
      Keeps (egress t limits gate) P (permit target) (fun verdict =>
        Q target verdict.1 verdict.2) E)
    (hsends : ∀ target learnt, t.acceptUrl url = .ok target →
      Sends gate limits (·.GoesTo target) (Q target .allowed learnt) (Q' target learnt))
    (hE : ∀ target learnt raised history,
      t.acceptUrl url = .ok target → Q' target learnt history → E raised history) :
    Keeps (egress t limits gate) P (fetchOne t outside limits known permit url)
      (fun result history =>
        result.1.url = url ∧
          FetchEnds t limits url P Q Q' known result.1.facts result.2 history) E := by
  rw [fetchOne]
  refine Keeps.bind (keeps_ask hP rfl rfl fun _ _ => trivial) fun started => ?_
  cases haccept : t.acceptUrl url with
  | error outcome =>
      refine Keeps.bind (keeps_fetchRow hP url started _) fun row => Keeps.pure fun history h => ?_
      exact ⟨h.2.1, .refused haccept h.2.2 rfl h.1⟩
  | ok target =>
      refine Keeps.bind (hpermit target haccept) fun verdict => ?_
      refine Keeps.bind (R := fun facts => FetchEnds t limits url P Q Q' known facts verdict.2) ?_
        fun facts => ?_
      · cases hverdict : verdict.1 with
        | refused => exact Keeps.pure fun history h => .stopped haccept (.inl ⟨rfl, rfl⟩) h
        | unchecked => exact Keeps.pure fun history h => .stopped haccept (.inr ⟨rfl, rfl⟩) h
        | allowed =>
            refine Transaction.Triple.consequence
              (keeps_fetchTarget (hsends target verdict.2 haccept)
              fun dial hsecure hhost hport hpath => ⟨hsecure, hhost, hport, hpath⟩)
                (fun _ h => h) ?_ ?_
            · exact fun facts history h => ⟨h.1, .fetched haccept h.2.2 h.2.1⟩
            · exact fun raised history h => ⟨h.1, hE target verdict.2 raised history haccept h.2⟩
      · refine Keeps.bind (keeps_fetchRow ?_ url started facts) fun row =>
          Keeps.pure fun history h => ?_
        · have hstill := fun target learnt hurl => (hsends target learnt hurl).quiet'.settled.still
          exact FetchEnds.still hP hQ hstill facts verdict.2
        · obtain ⟨hends, hurl, hfacts⟩ := h
          exact ⟨hurl, hfacts ▸ hends⟩

end

end Quorum
