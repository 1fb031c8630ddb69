import Quorum.BaseDict
import Quorum.CostTypes

/-! The confirmation tokens of the upper-cost band: the in-memory table that binds a token to the
account, the cost, the ordered panel and the run shape it was minted for, the verification that
consumes it, and the confirmation step of a create request on top of it. Every reading of the clock
is an argument of the step that makes it, so a run is any interleaving of calls under any clock. -/

namespace Quorum

open IsoTime

/-! ### The token table -/

structure BoundToken where
  accountId : Uuid
  queryRunId : Option Uuid
  estimatedCostUsd : Usd
  expiresAt : Instant
  token : Text
  panel : PanelKey
  critiqueShape : CritiqueShape
  deriving DecidableEq

abbrev TokenTable := Dict Text BoundToken

/-- Five minutes. -/
def confirmationTokenTtl : Nat := 300000000

def maxTokens : Nat := 4096

/-- Drop the expired tokens, then the ones that expire first until at most `maxTokens` are left. -/
def purgeExpiredTokens (tokens : TokenTable) (current : Instant) : TokenTable :=
  let expired := (tokens.items.filter fun pair => pair.2.expiresAt < current).map Prod.fst
  let live := tokens.popAll expired
  if live.size > maxTokens then
    let sortedItems := live.items.insertionSort fun left right =>
      left.2.expiresAt ≤ right.2.expiresAt
    live.popAll ((sortedItems.take (sortedItems.length - maxTokens)).map Prod.fst)
  else live

/-- What a mint is asked to bind. -/
structure MintRequest where
  accountId : Uuid
  queryRunId : Option Uuid
  estimatedCostUsd : Usd
  panel : PanelKey
  critiqueShape : CritiqueShape

def hexDigits : Text := ['0', '1', '2', '3', '4', '5', '6', '7', '8', '9', 'a', 'b',
  'c', 'd', 'e', 'f']

/-- Sixteen random bytes in hexadecimal. -/
abbrev Nonce := {text : Text // text.length = 32 ∧ ∀ c ∈ text, c ∈ hexDigits}

/-- The fields that the keyed digest of a token covers. -/
structure TokenMessage where
  request : MintRequest
  expiresAt : Instant
  nonce : Nonce

/-- 1970-01-01T00:00:00Z. -/
def unixEpoch : Nat := 62135596800000000

def timestamp (t : Instant) : Int := ((t.val : Int) - unixEpoch).tdiv microsPerSecond

def decimalText (z : Int) : Text :=
  if z < 0 then '-' :: Nat.toDigits 10 z.natAbs else Nat.toDigits 10 z.natAbs

section

/- `hmacHexdigest` is the hex digest of the keyed hash, of which only the text is used. -/
variable (hmacHexdigest : TokenMessage → Text)

def formatToken (message : TokenMessage) : Text :=
  decimalText (timestamp message.expiresAt) ++
    ('.' :: (message.nonce.val ++ ('.' :: hmacHexdigest message)))

/-- The record a mint stores: it expires `confirmationTokenTtl` after the mint's first reading. -/
def mintedRecord (request : MintRequest) (nonce : Nonce) (now : Instant) : BoundToken where
  accountId := request.accountId
  queryRunId := request.queryRunId
  estimatedCostUsd := request.estimatedCostUsd
  expiresAt := now.ahead confirmationTokenTtl
  token := formatToken hmacHexdigest ⟨request, now.ahead confirmationTokenTtl, nonce⟩
  panel := request.panel
  critiqueShape := request.critiqueShape

/-- The token is formatted under the first reading of the clock, outside the lock; the table is
purged under the second one. -/
def mintConfirmationToken (tokens : TokenTable) (request : MintRequest) (nonce : Nonce)
    (now current : Instant) : TokenTable × Text :=
  let record := mintedRecord hmacHexdigest request nonce now
  (purgeExpiredTokens (tokens.set record.token record) current, record.token)

/-- Two texts that agree agree behind the first occurrence of a character. -/
theorem eq_of_append_cons {c : Char} {s t x y : Text} (hs : c ∉ s) (ht : c ∉ t)
    (h : s ++ c :: x = t ++ c :: y) : x = y := by
  induction s generalizing t with
  | nil =>
      cases t with
      | nil => exact (List.cons.inj h).2
      | cons b t => exact absurd (List.cons.inj h).1 (List.ne_of_not_mem_cons ht)
  | cons a s ih =>
      cases t with
      | nil => exact absurd (List.cons.inj h).1.symm (List.ne_of_not_mem_cons hs)
      | cons b t =>
          exact ih (List.not_mem_of_not_mem_cons hs) (List.not_mem_of_not_mem_cons ht)
            (List.cons.inj h).2

theorem dot_notMem_decimalText (z : Int) : '.' ∉ decimalText z := by
  have hdigits : '.' ∉ Nat.toDigits 10 z.natAbs := fun hmem => by
    have hdigit := Nat.isDigit_of_mem_toDigits (by decide) (by decide) hmem
    exact absurd hdigit (by decide)
  unfold decimalText
  split
  · exact List.not_mem_cons_of_ne_of_not_mem (by decide) hdigits
  · exact hdigits

/-- A token shows the nonce it was formatted with. -/
theorem formatToken_nonce {left right : TokenMessage}
    (h : formatToken hmacHexdigest left = formatToken hmacHexdigest right) :
    left.nonce = right.nonce := by
  have hleft := dot_notMem_decimalText (timestamp left.expiresAt)
  have hright := dot_notMem_decimalText (timestamp right.expiresAt)
  have htail := eq_of_append_cons hleft hright h
  have hlength : left.nonce.val.length = right.nonce.val.length := by
    rw [left.nonce.property.1, right.nonce.property.1]
  exact Subtype.ext (List.append_inj_left htail hlength)

end

/-- The purge only removes entries. -/
theorem get?_of_purgeExpiredTokens {tokens : TokenTable} {current : Instant} {token : Text}
    {record : BoundToken} (h : (purgeExpiredTokens tokens current).get? token = some record) :
    tokens.get? token = some record := by
  simp only [purgeExpiredTokens] at h
  split_ifs at h
  · exact Dict.get?_of_popAll (Dict.get?_of_popAll h)
  · exact Dict.get?_of_popAll h

theorem size_purgeExpiredTokens_le (tokens : TokenTable) (current : Instant) :
    (purgeExpiredTokens tokens current).size ≤ maxTokens := by
  simp only [purgeExpiredTokens]
  split_ifs
  · rw [List.length_insertionSort, Dict.size_popAll_take _ (List.perm_insertionSort _ _)]
    change _ - (Dict.size _ - maxTokens) ≤ _
    omega
  · omega

/-- What a caller presents with a token. A caller without an account skips the account check. -/
structure Presented where
  token : Text
  accountId : Option Uuid
  estimatedCostUsd : Usd
  panel : PanelKey
  critiqueShape : CritiqueShape

def verifyConfirmationToken (tokens : TokenTable) (presented : Presented) (now : Instant) :
    Bool × TokenTable :=
  match tokens.get? presented.token with
  | none => (false, tokens)
  | some record =>
      if presented.accountId.any (record.accountId ≠ ·) then (false, tokens)
      else if record.estimatedCostUsd ≠ presented.estimatedCostUsd then (false, tokens)
      else if record.panel ≠ presented.panel ∨ record.critiqueShape ≠ presented.critiqueShape then
        (false, tokens.pop presented.token)
      else if record.expiresAt < now then (false, tokens.pop presented.token)
      else (true, tokens.pop presented.token)

/-- The presented values are the ones the record binds, and the record has not expired. -/
structure Fits (presented : Presented) (record : BoundToken) (now : Instant) : Prop where
  account : ∀ account ∈ presented.accountId, record.accountId = account
  cost : record.estimatedCostUsd = presented.estimatedCostUsd
  panel : record.panel = presented.panel
  shape : record.critiqueShape = presented.critiqueShape
  unexpired : now ≤ record.expiresAt

/-- A token is accepted only against the record that binds what is presented, and the record
goes. -/
theorem verifyConfirmationToken_accepts {tokens : TokenTable} {presented : Presented}
    {now : Instant} (h : (verifyConfirmationToken tokens presented now).1 = true) :
    (∃ record, tokens.get? presented.token = some record ∧ Fits presented record now) ∧
      (verifyConfirmationToken tokens presented now).2 = tokens.pop presented.token := by
  unfold verifyConfirmationToken at h ⊢
  cases hget : tokens.get? presented.token with
  | none => simp [hget] at h
  | some record =>
      simp only [hget] at h ⊢
      split_ifs at h ⊢ with haccount hcost hbinding hexpired
      refine ⟨⟨record, rfl, ?_⟩, rfl⟩
      push Not at hbinding
      constructor
      · intro account hmem
        rw [Option.mem_def.1 hmem] at haccount
        simpa using haccount
      · exact not_not.1 hcost
      · exact hbinding.1
      · exact hbinding.2
      · exact not_lt.1 hexpired

/-- A refused token is left in the table or removed from it. -/
theorem verifyConfirmationToken_refuses {tokens : TokenTable} {presented : Presented}
    {now : Instant} (h : (verifyConfirmationToken tokens presented now).1 = false) :
    (verifyConfirmationToken tokens presented now).2 = tokens ∨
      (verifyConfirmationToken tokens presented now).2 = tokens.pop presented.token := by
  unfold verifyConfirmationToken at h ⊢
  cases hget : tokens.get? presented.token with
  | none => exact .inl rfl
  | some record =>
      simp only [hget] at h ⊢
      split_ifs at h ⊢
      · exact .inl rfl
      · exact .inl rfl
      · exact .inr rfl
      · exact .inr rfl

/-! ### The confirmation of a create request -/

structure CostConfirmation where
  estimatedCostUsd : Usd
  confirmationToken : Text

/-- The part of a fresh estimate that the confirmation reads. -/
structure PricedRequest where
  estimatedCostUsd : Usd
  thresholdAction : CostThresholdAction

structure CostGuardrailDecision where
  confirmed : Bool
  reasons : List String
  deriving DecidableEq

/-- The token a create request presents, when its confirmation reaches the token table. -/
def presentedBy (estimate : PricedRequest) (confirmation : CostConfirmation)
    (modelSlots : List ModelSlot) (accountId : Option Uuid) (mode : Mode)
    (peerCritiqueEnabled : Bool) : Presented where
  token := confirmation.confirmationToken
  accountId := accountId
  estimatedCostUsd := estimate.estimatedCostUsd
  panel := panelKey modelSlots
  critiqueShape := tokenShape peerCritiqueEnabled mode

def evaluateConfirmation (tokens : TokenTable) (estimate : PricedRequest)
    (confirmation : Option CostConfirmation) (modelSlots : List ModelSlot) (accountId : Option Uuid)
    (mode : Mode) (peerCritiqueEnabled : Bool) (now : Instant) :
    CostGuardrailDecision × TokenTable :=
  if estimate.thresholdAction ≠ .requireConfirmation then
    (⟨true, ["Confirmation is only required for estimates in the upper-cost band."]⟩, tokens)
  else
    match confirmation with
    | none =>
        (⟨false,
          ["Cost estimate is in the upper-cost band and requires explicit confirmation."]⟩, tokens)
    | some confirmation =>
        if confirmation.estimatedCostUsd ≠ estimate.estimatedCostUsd then
          (⟨false, ["Confirmation cost does not match the latest estimate."]⟩, tokens)
        else
          let presented :=
            presentedBy estimate confirmation modelSlots accountId mode peerCritiqueEnabled
          match verifyConfirmationToken tokens presented now with
          | (false, tokens) =>
              (⟨false, ["Confirmation token is invalid, expired, was issued to a different " ++
                "account, or was issued for a different panel or critique shape."]⟩, tokens)
          | (true, tokens) => (⟨true, ["Cost confirmation matched the estimate."]⟩, tokens)

/-- A decision leaves the table alone, and then confirms only outside the upper-cost band, or it is
what the verification of the presented token says. -/
theorem evaluateConfirmation_cases (tokens : TokenTable) (estimate : PricedRequest)
    (confirmation : Option CostConfirmation) (modelSlots : List ModelSlot) (accountId : Option Uuid)
    (mode : Mode) (peerCritiqueEnabled : Bool) (now : Instant) :
    let decided :=
      evaluateConfirmation tokens estimate confirmation modelSlots accountId mode
        peerCritiqueEnabled now
    decided.2 = tokens ∧
    (decided.1.confirmed = true → estimate.thresholdAction ≠ .requireConfirmation) ∨
      estimate.thresholdAction = .requireConfirmation ∧ ∃ confirmed ∈ confirmation,
        (decided.1.confirmed, decided.2) = verifyConfirmationToken tokens
          (presentedBy estimate confirmed modelSlots accountId mode peerCritiqueEnabled) now := by
  unfold evaluateConfirmation
  by_cases hband : estimate.thresholdAction ≠ .requireConfirmation
  · rw [if_pos hband]
    exact .inl ⟨rfl, fun _ => hband⟩
  · rw [if_neg hband]
    cases confirmation with
    | none => exact .inl ⟨rfl, fun h => absurd h Bool.false_ne_true⟩
    | some confirmed =>
        by_cases hcost : confirmed.estimatedCostUsd ≠ estimate.estimatedCostUsd
        · exact .inl (by simp [hcost])
        · simp only [if_neg hcost]
          refine .inr ⟨not_not.1 hband, confirmed, rfl, ?_⟩
          split <;> rename_i hverify <;> rw [hverify]

end Quorum
