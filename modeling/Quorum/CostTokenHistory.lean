import Quorum.CostTokens

/-! Runs of the confirmation tokens. The service keeps, beside its table, the history of what it
minted and accepted, newest first. A token in the table stands for one mint that has not been
redeemed; since a verification that accepts also removes it, a history never holds more acceptances
of a token than mints. -/

namespace Quorum

open IsoTime

/-- A call of the token service, with the readings of the clock that it makes. A verification goes
through a create request, or directly. -/
inductive TokenStep where
  | mint (request : MintRequest) (nonce : Nonce) (now current : Instant)
  | evaluate (estimate : PricedRequest) (confirmation : Option CostConfirmation)
      (modelSlots : List ModelSlot) (accountId : Option Uuid) (mode : Mode)
        (peerCritiqueEnabled : Bool)
      (now : Instant)
  | verify (presented : Presented) (now : Instant)

inductive TokenEvent where
  | minted (record : BoundToken)
  | accepted (presented : Presented) (now : Instant)

def TokenEvent.mints (token : Text) : TokenEvent → Bool
  | .minted record => record.token = token
  | .accepted _ _ => false

def TokenEvent.accepts (token : Text) : TokenEvent → Bool
  | .minted _ => false
  | .accepted presented _ => presented.token = token

@[simp] theorem TokenEvent.mints_minted (token : Text) (record : BoundToken) :
    (TokenEvent.minted record).mints token = decide (record.token = token) := rfl

@[simp] theorem TokenEvent.mints_accepted (token : Text) (presented : Presented) (now : Instant) :
    (TokenEvent.accepted presented now).mints token = false := rfl

@[simp] theorem TokenEvent.accepts_minted (token : Text) (record : BoundToken) :
    (TokenEvent.minted record).accepts token = false := rfl

@[simp] theorem TokenEvent.accepts_accepted (token : Text) (presented : Presented) (now : Instant) :
    (TokenEvent.accepted presented now).accepts token = decide (presented.token = token) := rfl

structure TokenService where
  tokens : TokenTable
  history : List TokenEvent

section

variable (hmacHexdigest : TokenMessage → Text)

/-- One call. An acceptance is a verification that answers true, or a create request in the
upper-cost band that is confirmed. -/
def TokenService.step (service : TokenService) : TokenStep → TokenService
  | .mint request nonce now current =>
      { tokens := (mintConfirmationToken hmacHexdigest service.tokens request nonce now current).1
        history := .minted (mintedRecord hmacHexdigest request nonce now) :: service.history }
  | .evaluate estimate confirmation modelSlots accountId mode peerCritiqueEnabled now =>
      let decided :=
        evaluateConfirmation service.tokens estimate confirmation modelSlots accountId mode
        peerCritiqueEnabled now
      { tokens := decided.2
        history :=
          match confirmation with
          | some confirmed =>
              if estimate.thresholdAction = .requireConfirmation ∧ decided.1.confirmed then
                .accepted
                  (presentedBy estimate confirmed modelSlots accountId mode peerCritiqueEnabled)
                  now :: service.history
              else service.history
          | none => service.history }
  | .verify presented now =>
      let verified := verifyConfirmationToken service.tokens presented now
      { tokens := verified.2
        history :=
          if verified.1 then .accepted presented now :: service.history else service.history }

/-- The service after a list of calls, from an empty table. -/
def runTokenService (steps : List TokenStep) : TokenService :=
  steps.foldl (TokenService.step hmacHexdigest) ⟨.empty, []⟩

/-- What a call can do: mint, accept a token that is in the table, or drop at most one token. -/
theorem TokenService.step_cases (service : TokenService) (step : TokenStep) :
    let after := service.step hmacHexdigest step
    (∃ request nonce now current, step = .mint request nonce now current ∧
      after.history = .minted (mintedRecord hmacHexdigest request nonce now) :: service.history ∧
      after.tokens =
        (mintConfirmationToken hmacHexdigest service.tokens request nonce now current).1) ∨
    (∃ presented now, (∃ record, service.tokens.get? presented.token = some record ∧
        Fits presented record now) ∧
      after.history = .accepted presented now :: service.history ∧
      after.tokens = service.tokens.pop presented.token) ∨
    (after.history = service.history ∧
      (after.tokens = service.tokens ∨ ∃ token, after.tokens = service.tokens.pop token)) := by
  have hverified : ∀ (presented : Presented) (now : Instant) (verified : Bool × TokenTable),
      verified = verifyConfirmationToken service.tokens presented now →
      (verified.1 = true ∧ (∃ record, service.tokens.get? presented.token = some record ∧
          Fits presented record now) ∧ verified.2 = service.tokens.pop presented.token) ∨
        (verified.1 = false ∧
          (verified.2 = service.tokens ∨ ∃ token, verified.2 = service.tokens.pop token)) := by
    rintro presented now verified rfl
    cases h : (verifyConfirmationToken service.tokens presented now).1 with
    | true => exact .inl ⟨rfl, verifyConfirmationToken_accepts h⟩
    | false => exact .inr ⟨rfl, (verifyConfirmationToken_refuses h).imp_right fun hpop => ⟨_, hpop⟩⟩
  cases step with
  | mint request nonce now current => exact .inl ⟨request, nonce, now, current, rfl, rfl, rfl⟩
  | verify presented now =>
      rcases hverified presented now _ rfl with ⟨htrue, hrecord, hpop⟩ | ⟨hfalse, htokens⟩
      · exact .inr (.inl ⟨presented, now, hrecord, by simp [TokenService.step, htrue], hpop⟩)
      · exact .inr (.inr ⟨by simp [TokenService.step, hfalse], htokens⟩)
  | evaluate estimate confirmation modelSlots accountId mode peerCritiqueEnabled now =>
      rcases evaluateConfirmation_cases service.tokens estimate confirmation modelSlots
        accountId mode
        peerCritiqueEnabled now with ⟨hsame, houtside⟩ | ⟨hband, confirmed, hmem, hdecided⟩
      · refine .inr (.inr ⟨?_, .inl hsame⟩)
        cases confirmation with
        | none => rfl
        | some confirmed => exact if_neg fun h => houtside h.2 h.1
      · cases Option.mem_def.1 hmem
        rcases hverified _ now _ hdecided with ⟨htrue, hrecord, hpop⟩ | ⟨hfalse, htokens⟩
        · exact .inr (.inl ⟨_, now, hrecord, if_pos ⟨hband, htrue⟩, hpop⟩)
        · exact .inr
            (.inr ⟨if_neg fun h => absurd (hfalse.symm.trans h.2) Bool.false_ne_true, htokens⟩)

/-! ### The invariant -/

/-- Every acceptance comes after a mint of the token, against the values it was minted for. -/
def Backed (history : List TokenEvent) : Prop :=
  ∀ presented now earlier, .accepted presented now :: earlier <:+ history →
    ∃ record, .minted record ∈ earlier ∧ record.token = presented.token ∧ Fits presented record now

/-- The table accounts for the mints that the history has not seen redeemed. -/
structure Accounted (service : TokenService) : Prop where
  known : ∀ token record, service.tokens.get? token = some record →
    .minted record ∈ service.history ∧ record.token = token
  counted : ∀ token,
    service.history.countP (·.accepts token)
      + (if (service.tokens.get? token).isSome then 1 else 0) ≤
      service.history.countP (·.mints token)
  backed : Backed service.history
  bounded : service.tokens.size ≤ maxTokens

theorem accounted_empty : Accounted ⟨.empty, []⟩ where
  known := by intro token record h; cases h
  counted := by intro token; simp
  backed := by intro presented now earlier h; simp at h
  bounded := by simp

/-- Losing tokens keeps the account. -/
theorem Accounted.drop {service : TokenService} (h : Accounted service) (token : Text) :
    Accounted { service with tokens := service.tokens.pop token } where
  known := by
    intro other record hget
    rw [Dict.get?_pop] at hget
    split at hget
    · cases hget
    · exact h.known other record hget
  counted := by
    intro other
    refine le_trans (Nat.add_le_add_left ?_ _) (h.counted other)
    rw [Dict.get?_pop]
    split <;> simp
  backed := h.backed
  bounded := (Dict.size_pop_le _ _).trans h.bounded

theorem Accounted.accept {service : TokenService} (h : Accounted service) {presented : Presented}
    {now : Instant} {record : BoundToken} (hget : service.tokens.get? presented.token = some record)
    (hfits : Fits presented record now) :
    Accounted
      { tokens := service.tokens.pop presented.token
        history := .accepted presented now :: service.history } where
  known := by
    intro token other hother
    obtain ⟨hmem, htoken⟩ := (h.drop presented.token).known token other hother
    exact ⟨List.mem_cons_of_mem _ hmem, htoken⟩
  counted := by
    intro token
    have hold := h.counted token
    simp only [List.countP_cons, TokenEvent.accepts_accepted, TokenEvent.mints_accepted]
    by_cases htoken : presented.token = token
    · subst htoken
      rw [hget] at hold
      simpa using hold
    · rw [Dict.get?_pop_of_ne _ (Ne.symm htoken)]
      simpa [htoken] using hold
  backed := by
    intro presented' now' earlier hsuffix
    rcases List.suffix_cons_iff.1 hsuffix with heq | hsuffix
    · cases heq
      obtain ⟨hmem, htoken⟩ := h.known _ _ hget
      exact ⟨record, hmem, htoken, hfits⟩
    · exact h.backed presented' now' earlier hsuffix
  bounded := (Dict.size_pop_le _ _).trans h.bounded

theorem Accounted.mint {service : TokenService} (h : Accounted service) (request : MintRequest)
    (nonce : Nonce) (now current : Instant) :
    Accounted
      { tokens := (mintConfirmationToken hmacHexdigest service.tokens request nonce now current).1
        history := .minted (mintedRecord hmacHexdigest request nonce now) :: service.history } where
  known := by
    intro token record hget
    have hset := get?_of_purgeExpiredTokens hget
    rw [Dict.get?_set] at hset
    split at hset
    · rename_i htoken
      cases Option.some.inj hset
      exact ⟨List.mem_cons_self, htoken.symm⟩
    · obtain ⟨hmem, htoken⟩ := h.known token record hset
      exact ⟨List.mem_cons_of_mem _ hmem, htoken⟩
  counted := by
    intro token
    have hold := h.counted token
    simp only [List.countP_cons, TokenEvent.accepts_minted, TokenEvent.mints_minted]
    by_cases htoken : (mintedRecord hmacHexdigest request nonce now).token = token
    · have hone :
          (if ((mintConfirmationToken hmacHexdigest service.tokens request nonce now
            current).1.get? token).isSome then 1 else 0) ≤ 1 := by split <;> simp
      simp only [htoken, decide_true, if_true, Bool.false_eq_true, if_false]
      omega
    · have hlive :
          (if ((mintConfirmationToken hmacHexdigest service.tokens request nonce now
            current).1.get? token).isSome then 1 else 0)
            ≤ if (service.tokens.get? token).isSome then 1 else 0 := by
        cases hget : (mintConfirmationToken hmacHexdigest service.tokens request nonce now
            current).1.get? token with
        | none => simp
        | some record =>
            have hset := get?_of_purgeExpiredTokens hget
            rw [Dict.get?_set_of_ne _ _ (Ne.symm htoken)] at hset
            simp [hset]
      simp only [htoken, decide_false, Bool.false_eq_true, if_false]
      omega
  backed := by
    intro presented now' earlier hsuffix
    rcases List.suffix_cons_iff.1 hsuffix with heq | hsuffix
    · cases heq
    · exact h.backed presented now' earlier hsuffix
  bounded := size_purgeExpiredTokens_le _ _

theorem Accounted.step {service : TokenService} (h : Accounted service) (step : TokenStep) :
    Accounted (service.step hmacHexdigest step) := by
  have heta : ∀ after : TokenService, after = ⟨after.tokens, after.history⟩ := fun _ => rfl
  rw [heta (service.step hmacHexdigest step)]
  rcases service.step_cases hmacHexdigest step with
    ⟨request, nonce, now, current, -, hhistory, htokens⟩ | ⟨presented, now, ⟨record, hget, hfits⟩,
      hhistory, htokens⟩ |
    ⟨hhistory, htokens | ⟨token, htokens⟩⟩
  all_goals rw [hhistory, htokens]
  · exact h.mint hmacHexdigest request nonce now current
  · exact h.accept hget hfits
  · exact h
  · exact h.drop token

theorem accounted_run (steps : List TokenStep) :
    Accounted (runTokenService hmacHexdigest steps) := by
  have hfold : ∀ service, Accounted service →
      Accounted (steps.foldl (TokenService.step hmacHexdigest) service) := by
    induction steps with
    | nil => intro service h; exact h
    | cons step steps ih => intro service h; exact ih _ (h.step hmacHexdigest step)
  exact hfold _ accounted_empty

/-! ### Fresh nonces -/

/-- The nonces that a run draws. -/
def mintNonces (steps : List TokenStep) : List Nonce :=
  steps.filterMap fun step =>
    match step with
    | .mint _ nonce _ _ => some nonce
    | _ => none

/-- A call that mints a given token. -/
def TokenStep.mints (token : Text) : TokenStep → Bool
  | .mint request nonce now _ => (mintedRecord hmacHexdigest request nonce now).token = token
  | _ => false

/-- The history shows a mint for each call that mints. -/
theorem countP_mints_run (steps : List TokenStep) (token : Text) :
    (runTokenService hmacHexdigest steps).history.countP (·.mints token) =
      steps.countP (·.mints hmacHexdigest token) := by
  induction steps using List.reverseRecOn with
  | nil => rfl
  | append_singleton steps step ih =>
      have hrun : runTokenService hmacHexdigest (steps ++ [step]) =
          (runTokenService hmacHexdigest steps).step hmacHexdigest step := by
        simp [runTokenService]
      rw [hrun, List.countP_append, ← ih, List.countP_singleton]
      cases step with
      | mint request nonce now current => exact List.countP_cons
      | verify presented now =>
          simp only [TokenService.step]
          split <;> simp [TokenStep.mints]
      | evaluate estimate confirmation modelSlots accountId mode peerCritiqueEnabled now =>
          simp only [TokenService.step]
          split
          · split <;> simp [TokenStep.mints]
          · simp [TokenStep.mints]

/-- With fresh nonces no token is minted twice. -/
theorem countP_mints_le_one {steps : List TokenStep} (hfresh : (mintNonces steps).Nodup)
    (token : Text) :
    steps.countP (·.mints hmacHexdigest token) ≤ 1 := by
  induction steps with
  | nil => simp
  | cons step steps ih =>
      have hrest : (mintNonces steps).Nodup :=
        hfresh.sublist ((List.sublist_cons_self step steps).filterMap _)
      rw [List.countP_cons]
      cases hmints : step.mints hmacHexdigest token with
      | false => simpa using ih hrest
      | true =>
          cases step with
          | mint request nonce now current =>
              have hnotMem : nonce ∉ mintNonces steps := (List.nodup_cons.1 hfresh).1
              have htoken : (mintedRecord hmacHexdigest request nonce now).token = token := by
                simpa [TokenStep.mints] using hmints
              have hnone : steps.countP (·.mints hmacHexdigest token) = 0 := by
                rw [List.countP_eq_zero]
                intro other hmem hother
                cases other with
                | mint request' nonce' now' current' =>
                    have htoken' : (mintedRecord hmacHexdigest request' nonce' now').token =
                        token := by
                      simpa [TokenStep.mints] using hother
                    have hnonce : nonce' = nonce :=
                      formatToken_nonce hmacHexdigest (htoken'.trans htoken.symm)
                    exact hnotMem (List.mem_filterMap.2 ⟨_, hmem, congrArg some hnonce⟩)
                | evaluate => exact absurd hother Bool.false_ne_true
                | verify => exact absurd hother Bool.false_ne_true
              simp [hnone]
          | evaluate => exact absurd hmints Bool.false_ne_true
          | verify => exact absurd hmints Bool.false_ne_true

/-- Confirmation tokens are single-use and bound: over every sequence of calls and every clock, a
token is accepted at most once for each time it was minted, so at most once when the nonces are
fresh; each acceptance comes after a mint of the token for the same account, cost, ordered panel and
run shape, and not after the expiry set by that mint; and the table never holds more than
`maxTokens` tokens. -/
theorem confirmation_token_single_use_and_bound (steps : List TokenStep) :
    let service := runTokenService hmacHexdigest steps
    (∀ token, service.history.countP (·.accepts token) ≤ service.history.countP (·.mints token)) ∧
      ((mintNonces steps).Nodup → ∀ token, service.history.countP (·.accepts token) ≤ 1) ∧
      Backed service.history ∧
      service.tokens.size ≤ maxTokens := by
  have haccounted := accounted_run hmacHexdigest steps
  have hsingle : ∀ token, (runTokenService hmacHexdigest steps).history.countP (·.accepts token) ≤
      (runTokenService hmacHexdigest steps).history.countP (·.mints token) :=
    fun token => (Nat.le_add_right _ _).trans (haccounted.counted token)
  refine ⟨hsingle, fun hfresh token => (hsingle token).trans ?_, haccounted.backed,
    haccounted.bounded⟩
  rw [countP_mints_run]
  exact countP_mints_le_one hmacHexdigest hfresh token

end

end Quorum
