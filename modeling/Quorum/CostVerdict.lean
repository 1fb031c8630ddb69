import Quorum.CostBound
import Quorum.CostTokens
import Quorum.LedgerReconnect
import Quorum.LedgerRing

/-! The verdict of an estimate. Four rails are tested, on two prices and two meters, and decided in
one order; the allowance that is shown comes from the one reading of the ledger that the rails
used. -/

open IsoTime

namespace Quorum

namespace Estimation

def softThresholdUsd : ℚ := 3 / 10

def hardLimitUsd : ℚ := 1 / 2

def dailyCapUsd : ℚ := 2 / 5

def globalDailyCeilingUsd : ℚ := 5

inductive BlockReason
  | perRunCap
  | accountRunningTotal
  | ledgerUnavailable
  | dailyCap
  deriving DecidableEq

inductive AllowanceBound
  | dailyCap
  | runningTotal
  deriving DecidableEq

structure DailyAllowance where
  capUsd : ℚ
  spentUsd : ℚ
  remainingUsd : ℚ
  boundedBy : AllowanceBound
  sharedByNetwork : Bool

structure CostEstimate where
  estimatedCostUsd : ℚ
  maxCostUsd : ℚ
  thresholdAction : CostThresholdAction
  confirmationToken : Option Text
  reasons : List String
  breakdown : CostBreakdown
  globalCeilingReached : Bool := false
  spendMeteringUnavailable : Bool := false
  blockReason : Option BlockReason
  dailyAllowance : Option DailyAllowance

/-! ### Texts of amounts -/

/-- `ROUND_HALF_EVEN`, the rounding of a `quantize` that names none. -/
def roundHalfEven (x : ℚ) : ℤ :=
  if x - ⌊x⌋ < 1 / 2 then ⌊x⌋
  else if 1 / 2 < x - ⌊x⌋ then ⌊x⌋ + 1
  else if ⌊x⌋ % 2 = 0 then ⌊x⌋ else ⌊x⌋ + 1

def quantizeHalfEven (amount : ℚ) : ℚ :=
  roundHalfEven (amount / costDisplayQuantum) * costDisplayQuantum

def quantizeCeiling (amount : ℚ) : ℚ := ⌈amount / costDisplayQuantum⌉ * costDisplayQuantum

def quantizeFloor (amount : ℚ) : ℚ := ⌊amount / costDisplayQuantum⌋ * costDisplayQuantum

/-- An amount of four decimal places as it is printed. -/
def usdText (amount : ℚ) : String :=
  let steps := ⌊amount / costDisplayQuantum⌋.toNat
  toString (steps / 10000) ++ "." ++ String.ofList (pad 4 (steps % 10000))

/-! ### The allowance -/

/-- What the rails leave: the daily cap less what was spent, or the running limit where that is
strictly smaller. -/
def runningTotalBounds (alreadySpent cumulative : ℚ) : Bool :=
  0 < cumulative ∧ hardLimitUsd - cumulative < dailyCapUsd - alreadySpent

def remainingOf (alreadySpent cumulative : ℚ) : ℚ :=
  if runningTotalBounds alreadySpent cumulative then hardLimitUsd - cumulative
  else dailyCapUsd - alreadySpent

def dailyAllowanceFrom (alreadySpent cumulative : ℚ) (sharedByNetwork : Bool) : DailyAllowance where
  capUsd := dailyCapUsd
  spentUsd := quantizeCeiling alreadySpent
  remainingUsd := quantizeFloor (min (max (remainingOf alreadySpent cumulative) 0) dailyCapUsd)
  boundedBy := if runningTotalBounds alreadySpent cumulative then .runningTotal else .dailyCap
  sharedByNetwork := sharedByNetwork

/-! ### The estimate -/

structure EstimateRequest extends CostRequest where
  accountId : Option Uuid := none
  queryRunId : Option Uuid := none
  spendKey : Option Uuid := none
  sharedByNetwork : Bool := false

/-- The key whose spend the rails of an account read. -/
def EstimateRequest.meterKey (request : EstimateRequest) : Option Uuid :=
  request.spendKey <|> request.accountId

/-- The store that an estimate fetched, as its three readings find it; the last of them may
raise. -/
structure StoreMoments where
  judged : FeedbackStore
  checked : FeedbackStore
  metered : FeedbackStore
  clock : Instant
  fault : Option LedgerError := none

/-- The store that the estimate fetched last, for the deployment's ceiling. -/
structure CeilingMoment where
  store : FeedbackStore
  clock : Instant
  fault : Option LedgerError := none

/-- What an estimate finds: the flag before it triggers a reconnect, the ring, the store, the table
of tokens. -/
structure EstimateEnv where
  pricing : Pricing
  peerCritiqueEnabled : Bool
  dailyCapFailClosed : Bool
  reopenTriedWithoutRecovery : Bool
  ring : Option CostEventRing
  store : Option StoreMoments
  globalStore : Option CeilingMoment
  tokens : TokenTable
  hmacHexdigest : TokenMessage → Text
  placeholderAccount : Uuid
  nonce : Nonce
  now : Instant
  current : Instant

inductive EstimateError
  | cost (error : CostError)
  | ledger (error : LedgerError)
  | assertion

def thresholdFor (bound : ℚ) (sharedByNetwork : Bool) : CostThresholdAction × List String :=
  if hardLimitUsd < bound then
    (.block, ["Worst-case cost could exceed the USD 0.50 hard limit for "
      ++ (if sharedByNetwork then "this network" else "this account") ++ "."])
  else if softThresholdUsd < bound then
    (.requireConfirmation,
      ["Worst-case cost could exceed USD 0.30 and requires explicit confirmation."])
  else (.allow, ["Worst-case cost is within the no-confirmation band."])

/-- What the ledger branch leaves for the decision. -/
structure LedgerSide where
  condemned : Bool := false
  meteringUnavailable : Bool := false
  alreadySpent : Option ℚ := none

variable (env : EstimateEnv) (request : EstimateRequest)

/-- The running total of the key, 0 without a key or a ring. -/
def cumulativeOf : ℚ :=
  match request.meterKey, env.ring with
  | some key, some ring => cumulativeSpendFor key ring
  | _, _ => 0

def runningTotalFires (cumulative estimated : ℚ) : Bool :=
  0 < cumulative ∧ hardLimitUsd < cumulative + estimated

/-- A reading that may raise before it starts. -/
def faulted {α : Type} (fault : Option LedgerError) (read : Except LedgerError α) :
    Except EstimateError α :=
  match fault with
  | some raised => .error (.ledger raised)
  | none => read.mapError .ledger

/-- The ledger is condemned, or cannot be metered, or is read. -/
def readLedger : Except EstimateError LedgerSide :=
  match request.meterKey with
  | none => .ok {}
  | some key =>
      let trustworthy :=
        StoreReconnect.feedbackLedgerIsTrustworthy (env.store.map (·.judged.handle))
      if env.dailyCapFailClosed && env.reopenTriedWithoutRecovery && !trustworthy then
        .ok { condemned := true }
      else if !StoreReconnect.feedbackLedgerMayBeMetered (env.store.map (·.checked.handle)) then
        .ok { meteringUnavailable := true }
      else
        match env.store with
        | none => .error .assertion
        | some store =>
            (faulted store.fault (dailySpendFor key store.clock store.metered)).map fun spent =>
              { alreadySpent := some (spent : ℚ) }

def dailyCapFires (ledger : LedgerSide) (estimated : ℚ) : Bool :=
  match ledger.alreadySpent with
  | none => false
  | some alreadySpent => dailyCapUsd < alreadySpent + estimated

def allowanceOf (ledger : LedgerSide) : Option DailyAllowance :=
  ledger.alreadySpent.map fun alreadySpent =>
    dailyAllowanceFrom alreadySpent (cumulativeOf env request) request.sharedByNetwork

def meterName : String := if request.sharedByNetwork then "this network" else "the account"

def thisMeter : String := if request.sharedByNetwork then "this network" else "this account"

def runningTotalReasons : List String :=
  ["This run would take " ++ meterName request
    ++ "'s recent spend past its USD 0.50 running limit.",
    "Cumulative spend for " ++ thisMeter request ++ " is "
      ++ usdText (quantizeHalfEven (cumulativeOf env request))
      ++ " USD."]

def ledgerReasons : List String :=
  ["The daily spend ledger is not writable and a reconnect attempt has already been made without restoring it, so "
    ++ (if request.sharedByNetwork then "no 24h cap" else "no account's 24h cap")
    ++ " can be verified right now. This is a storage fault on the shared ledger, not a limit "
    ++ thisMeter request ++ " has reached."]

def dailyCapReasons (alreadySpent estimated : ℚ) : List String :=
  if estimated ≤ dailyCapUsd then
    ["This run would take " ++ meterName request ++ " past its USD 0.40 daily cap.",
      (if request.sharedByNetwork then "This network has" else "Account has") ++ " spent "
        ++ usdText (quantizeHalfEven alreadySpent)
        ++ " USD in the last 24 hours; spend frees up as each run turns 24 hours old."]
  else
    ["This run's estimate of " ++ usdText estimated ++ " USD is larger than " ++ meterName request
      ++ "'s whole USD 0.40 allowance for 24 hours, so it will not fit however long you wait.",
      "Choose lower-cost models or shorten the question."]

/-- The rail that blocks besides the per-run cap, which wins over every other and keeps its own
reasons. -/
def blockOf (action : CostThresholdAction) (ledger : LedgerSide) (estimated : ℚ) :
    Option (BlockReason × List String) :=
  if action = .block then none
  else if runningTotalFires (cumulativeOf env request) estimated then
    some (.accountRunningTotal, runningTotalReasons env request)
  else if ledger.condemned then some (.ledgerUnavailable, ledgerReasons request)
  else if dailyCapFires ledger estimated then
    some (.dailyCap, dailyCapReasons request (ledger.alreadySpent.getD 0) estimated)
  else none

def globalCeilingReached : Except EstimateError Bool :=
  match env.globalStore with
  | none => .ok false
  | some moment =>
      (faulted moment.fault (globalDailySpend moment.clock moment.store)).map fun spent =>
        globalDailyCeilingUsd ≤ spent

def mintRequest (estimated : ℚ) : MintRequest where
  accountId := request.accountId.getD env.placeholderAccount
  queryRunId := request.queryRunId
  estimatedCostUsd := estimated
  panel := panelKey request.modelSlots
  critiqueShape := tokenShape env.peerCritiqueEnabled request.mode

/-- The table and the token, none for a run that is over the per-run cap. -/
def mintFor (action : CostThresholdAction) (estimated : ℚ) : TokenTable × Option Text :=
  if action ≠ .block then
    let minted := mintConfirmationToken env.hmacHexdigest env.tokens
      (mintRequest env request estimated) env.nonce env.now
      env.current
    (minted.1, some minted.2)
  else (env.tokens, none)

/-- The estimate once both prices and the ledger are read. -/
def conclude (breakdown : CostBreakdown) (bound : ℚ) (ledger : LedgerSide) :
    Except EstimateError (CostEstimate × TokenTable) :=
  let (action, reasons) := thresholdFor bound request.sharedByNetwork
  match blockOf env request action ledger breakdown.total with
  | some (blockReason, blockReasons) =>
      .ok ({ estimatedCostUsd := breakdown.total, maxCostUsd := bound, thresholdAction := .block,
             confirmationToken := none, breakdown := breakdown, reasons := blockReasons,
             blockReason := some blockReason, dailyAllowance := allowanceOf env request ledger }, env.tokens)
  | none =>
      (globalCeilingReached env).map fun ceilingReached =>
        let (tokens, token) := mintFor env request action breakdown.total
        ({ estimatedCostUsd := breakdown.total, maxCostUsd := bound, thresholdAction := action,
           confirmationToken := token, reasons := reasons, breakdown := breakdown,
           globalCeilingReached := ceilingReached, spendMeteringUnavailable := ledger.meteringUnavailable,
           blockReason := if action = .block then some .perRunCap else none,
           dailyAllowance := allowanceOf env request ledger }, tokens)

def estimate : Except EstimateError (CostEstimate × TokenTable) := do
  let breakdown ← (estimateBreakdown env.pricing request.toCostRequest).mapError .cost
  let bound ← (estimateBoundUsd env.pricing request.toCostRequest).mapError .cost
  let ledger ← readLedger env request
  conclude env request breakdown bound ledger

/-! ### The allowance and the rails -/

section
variable {env request}

theorem quantizeFloor_le (amount : ℚ) : quantizeFloor amount ≤ amount :=
  calc quantizeFloor amount = ⌊amount / costDisplayQuantum⌋ * costDisplayQuantum := rfl
    _ ≤ amount / costDisplayQuantum * costDisplayQuantum :=
        mul_le_mul_of_nonneg_right (Int.floor_le _) costDisplayQuantum_pos.le
    _ = amount := div_mul_cancel₀ amount costDisplayQuantum_pos.ne'

theorem quantizeFloor_nonneg {amount : ℚ} (h : 0 ≤ amount) : 0 ≤ quantizeFloor amount :=
  mul_nonneg (Int.cast_nonneg (Int.floor_nonneg.mpr (div_nonneg h costDisplayQuantum_pos.le)))
    costDisplayQuantum_pos.le

theorem dailyCapUsd_nonneg : 0 ≤ dailyCapUsd := by norm_num [dailyCapUsd]

/-- What is shown as left is between nothing and the cap. -/
theorem remainingUsd_bounds (alreadySpent cumulative : ℚ) (sharedByNetwork : Bool) :
    0 ≤ (dailyAllowanceFrom alreadySpent cumulative sharedByNetwork).remainingUsd ∧
      (dailyAllowanceFrom alreadySpent cumulative sharedByNetwork).remainingUsd ≤ dailyCapUsd := by
  constructor
  · exact quantizeFloor_nonneg (le_min (le_max_right _ _) dailyCapUsd_nonneg)
  · exact (quantizeFloor_le _).trans (min_le_right _ _)

/-- A positive cost within what is shown is within both rails. -/
theorem within_remaining {alreadySpent cumulative estimated : ℚ} {sharedByNetwork : Bool}
    (hpos : 0 < estimated)
    (h : estimated ≤ (dailyAllowanceFrom alreadySpent cumulative sharedByNetwork).remainingUsd) :
    estimated ≤ dailyCapUsd - alreadySpent ∧
    (0 < cumulative → estimated ≤ hardLimitUsd - cumulative) := by
  have hclamped : estimated ≤ max (remainingOf alreadySpent cumulative) 0 :=
    calc estimated
        ≤ quantizeFloor (min (max (remainingOf alreadySpent cumulative) 0) dailyCapUsd) := h
      _ ≤ min (max (remainingOf alreadySpent cumulative) 0) dailyCapUsd := quantizeFloor_le _
      _ ≤ max (remainingOf alreadySpent cumulative) 0 := min_le_left _ _
  have hleft : estimated ≤ remainingOf alreadySpent cumulative := by
    rcases le_max_iff.mp hclamped with hleft | hzero
    · exact hleft
    · exact absurd hpos (not_lt.mpr hzero)
  rw [remainingOf] at hleft
  by_cases hbounds : runningTotalBounds alreadySpent cumulative = true
  · rw [if_pos hbounds] at hleft
    obtain ⟨-, hsmaller⟩ := of_decide_eq_true hbounds
    exact ⟨hleft.trans hsmaller.le, fun _ => hleft⟩
  · rw [if_neg hbounds] at hleft
    refine ⟨hleft, fun hcumulative => hleft.trans ?_⟩
    by_contra hlarger
    exact hbounds (decide_eq_true ⟨hcumulative, not_le.mp hlarger⟩)

theorem runningTotalFires_within {alreadySpent cumulative estimated : ℚ} {sharedByNetwork : Bool}
    (hpos : 0 < estimated)
    (h : estimated ≤ (dailyAllowanceFrom alreadySpent cumulative sharedByNetwork).remainingUsd) :
    runningTotalFires cumulative estimated = false := by
  refine decide_eq_false fun ⟨hcumulative, hover⟩ => ?_
  have hwithin := (within_remaining hpos h).2 hcumulative
  linarith

theorem dailyCapFires_within {ledger : LedgerSide} {alreadySpent cumulative estimated : ℚ}
    {sharedByNetwork : Bool} (hspent : ledger.alreadySpent = some alreadySpent)
    (hpos : 0 < estimated)
    (h : estimated ≤ (dailyAllowanceFrom alreadySpent cumulative sharedByNetwork).remainingUsd) :
    dailyCapFires ledger estimated = false := by
  have hwithin := (within_remaining hpos h).1
  rw [dailyCapFires, hspent]
  exact decide_eq_false fun hover => by linarith

/-! ### The verdict -/

/-- The first rail that fires, in the order in which they are decided. -/
def firstThatHolds (rails : List (Bool × BlockReason)) : Option BlockReason :=
  (rails.find? Prod.fst).map Prod.snd

theorem thresholdFor_block {bound : ℚ} {sharedByNetwork : Bool} :
    (thresholdFor bound sharedByNetwork).1 = .block ↔ hardLimitUsd < bound := by
  unfold thresholdFor
  by_cases hhard : hardLimitUsd < bound
  · rw [if_pos hhard]
    exact iff_of_true rfl hhard
  · rw [if_neg hhard]
    refine iff_of_false ?_ hhard
    split_ifs
    · exact fun h => (nomatch h)
    · exact fun h => (nomatch h)

theorem blockOf_reason (bound : ℚ) (ledger : LedgerSide) (estimated : ℚ) :
    ((blockOf env request (thresholdFor bound request.sharedByNetwork).1
      ledger estimated).map Prod.fst).or
        (if (thresholdFor bound request.sharedByNetwork).1 = .block then some .perRunCap else none)
      = firstThatHolds [(decide (hardLimitUsd < bound), .perRunCap),
          (runningTotalFires (cumulativeOf env request) estimated, .accountRunningTotal),
          (ledger.condemned, .ledgerUnavailable), (dailyCapFires ledger estimated, .dailyCap)] := by
  unfold blockOf firstThatHolds
  by_cases hhard : hardLimitUsd < bound
  · rw [if_pos (thresholdFor_block.mpr hhard), if_pos (thresholdFor_block.mpr hhard),
      decide_eq_true hhard]
    rfl
  · rw [if_neg (thresholdFor_block.not.mpr hhard), if_neg (thresholdFor_block.not.mpr hhard),
      decide_eq_false hhard]
    cases runningTotalFires (cumulativeOf env request) estimated with
    | true => rfl
    | false =>
        cases hcondemned : ledger.condemned with
        | true => simp
        | false => cases dailyCapFires ledger estimated <;> simp

theorem mintFor_block (estimated : ℚ) : (mintFor env request .block estimated).2 = none := by
  rw [mintFor, if_neg fun h => h rfl]

theorem mintFor_token {action : CostThresholdAction} (h : action ≠ .block) (estimated : ℚ) :
    (mintFor env request action estimated).2 ≠ none := by
  rw [mintFor, if_pos h]
  exact Option.some_ne_none _

/-- The fields of a verdict that tell whether it blocks say one thing, and the reason is the first
rail that fires. -/
structure Consistent (env : EstimateEnv) (request : EstimateRequest) (bound : ℚ)
    (ledger : LedgerSide) (verdict : CostEstimate) : Prop where
  reasonIff : verdict.thresholdAction = .block ↔ verdict.blockReason.isSome
  tokenIff : verdict.thresholdAction = .block ↔ verdict.confirmationToken = none
  reason : verdict.blockReason = firstThatHolds [(decide (hardLimitUsd < bound), .perRunCap),
    (runningTotalFires (cumulativeOf env request) verdict.estimatedCostUsd, .accountRunningTotal),
    (ledger.condemned, .ledgerUnavailable),
      (dailyCapFires ledger verdict.estimatedCostUsd, .dailyCap)]
  allowance : verdict.dailyAllowance = allowanceOf env request ledger

theorem conclude_consistent {breakdown : CostBreakdown} {bound : ℚ} {ledger : LedgerSide}
    {verdict : CostEstimate} {tokens : TokenTable}
    (h : conclude env request breakdown bound ledger = .ok (verdict, tokens)) :
    verdict.estimatedCostUsd = breakdown.total ∧ verdict.maxCostUsd = bound ∧
      Consistent env request bound ledger verdict := by
  have hreason := @blockOf_reason env request bound ledger breakdown.total
  unfold conclude at h
  generalize thresholdFor bound request.sharedByNetwork = threshold at h hreason
  obtain ⟨action, reasons⟩ := threshold
  dsimp only at h hreason
  cases hblock : blockOf env request action ledger breakdown.total with
  | some found =>
      rw [hblock] at h hreason
      cases h
      exact ⟨rfl, rfl, iff_of_true rfl rfl, iff_of_true rfl rfl, hreason, rfl⟩
  | none =>
      rw [hblock] at h hreason
      cases hceiling : globalCeilingReached env with
      | error raised => rw [hceiling] at h; cases h
      | ok ceilingReached =>
          rw [hceiling] at h
          cases h
          refine ⟨rfl, rfl, ?_, ?_, hreason, rfl⟩
          · by_cases haction : action = .block
            · rw [haction]
              exact iff_of_true rfl rfl
            · dsimp only
              rw [if_neg haction]
              exact iff_of_false haction Bool.false_ne_true
          · by_cases haction : action = .block
            · rw [haction]
              exact iff_of_true rfl (@mintFor_block env request breakdown.total)
            · exact iff_of_false haction (mintFor_token haction breakdown.total)

/-- The readings that an estimate makes do not raise. -/
def ReadsAnswer (env : EstimateEnv) (request : EstimateRequest) : Prop :=
  (∃ ledger, readLedger env request = .ok ledger) ∧
    ∃ reached, globalCeilingReached env = .ok reached

/-- One verdict: an estimate answers for every panel it prices wherever its readings answer, and
what it answers blocks exactly if it names a reason and exactly if it mints no token, for the first
rail that fires; its allowance is there exactly if the ledger was read, is between nothing and the
cap, and leaves no rail to fire on a cost within it. -/
theorem estimate_verdict (env : EstimateEnv) (request : EstimateRequest) :
    (admitted request.modelSlots (request.mode = .quick) → ReadsAnswer env request →
      ∃ verdict tokens, estimate env request = .ok (verdict, tokens)) ∧
    ∀ verdict tokens, estimate env request = .ok (verdict, tokens) →
      ∃ bound ledger, estimateBoundUsd env.pricing request.toCostRequest = .ok bound ∧
        readLedger env request = .ok ledger ∧ verdict.maxCostUsd = bound ∧
        0 ≤ verdict.estimatedCostUsd ∧
        (verdict.thresholdAction = .block ↔ verdict.blockReason.isSome) ∧
        (verdict.thresholdAction = .block ↔ verdict.confirmationToken = none) ∧
        verdict.blockReason = firstThatHolds [(decide (hardLimitUsd < bound), .perRunCap),
          (runningTotalFires (cumulativeOf env request) verdict.estimatedCostUsd,
            .accountRunningTotal),
          (ledger.condemned, .ledgerUnavailable),
            (dailyCapFires ledger verdict.estimatedCostUsd, .dailyCap)] ∧
        (verdict.dailyAllowance = none ↔ ledger.alreadySpent = none) ∧
        ∀ allowance, verdict.dailyAllowance = some allowance →
          0 ≤ allowance.remainingUsd ∧ allowance.remainingUsd ≤ dailyCapUsd ∧
          (0 < verdict.estimatedCostUsd → verdict.estimatedCostUsd ≤ allowance.remainingUsd →
            runningTotalFires (cumulativeOf env request) verdict.estimatedCostUsd = false ∧
            dailyCapFires ledger verdict.estimatedCostUsd = false) := by
  constructor
  · rintro hslots ⟨⟨ledger, hledger⟩, reached, hreached⟩
    obtain ⟨breakdown, hbreakdown, -⟩ :=
      estimateBreakdown_partition env.pricing request.toCostRequest hslots
    have hbound := estimateBoundUsd_ok env.pricing request.toCostRequest hslots
    have hanswers : ∀ bound, ∃ verdict tokens,
        conclude env request breakdown bound ledger = .ok (verdict, tokens) := by
      intro bound
      unfold conclude
      generalize thresholdFor bound request.sharedByNetwork = threshold
      obtain ⟨action, reasons⟩ := threshold
      dsimp only
      cases blockOf env request action ledger breakdown.total with
      | some found => exact ⟨_, _, rfl⟩
      | none =>
          rw [hreached]
          exact ⟨_, _, rfl⟩
    obtain ⟨verdict, tokens, hconclude⟩ := hanswers _
    refine ⟨verdict, tokens, ?_⟩
    rw [estimate, hbreakdown, hbound, hledger]
    exact hconclude
  · intro verdict tokens h
    unfold estimate at h
    cases hbreakdown : estimateBreakdown env.pricing request.toCostRequest with
    | error raised => rw [hbreakdown] at h; cases h
    | ok breakdown =>
    cases hbound : estimateBoundUsd env.pricing request.toCostRequest with
    | error raised => rw [hbreakdown, hbound] at h; cases h
    | ok bound =>
    cases hledger : readLedger env request with
    | error raised => rw [hbreakdown, hbound, hledger] at h; cases h
    | ok ledger =>
        rw [hbreakdown, hbound, hledger] at h
        obtain ⟨hestimated, hmax, hconsistent⟩ := conclude_consistent h
        refine ⟨bound, ledger, rfl, rfl, hmax, hestimated ▸ breakdown.nonneg, hconsistent.reasonIff,
          hconsistent.tokenIff,
          hconsistent.reason, ?_, ?_⟩
        · rw [hconsistent.allowance, allowanceOf, Option.map_eq_none_iff]
        · intro allowance hallowance
          rw [hconsistent.allowance] at hallowance
          obtain ⟨alreadySpent, hspent, rfl⟩ := Option.map_eq_some_iff.mp hallowance
          obtain ⟨hzero, hcap⟩ :=
            remainingUsd_bounds alreadySpent (cumulativeOf env request) request.sharedByNetwork
          exact ⟨hzero, hcap, fun hpos hwithin =>
            ⟨runningTotalFires_within hpos hwithin, dailyCapFires_within hspent hpos hwithin⟩⟩

end

end Estimation

end Quorum
