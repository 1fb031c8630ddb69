import Mathlib.Data.Rat.Defs
import Mathlib.Tactic
import Quorum.BaseIsoTime
import Quorum.FenceLetters

/-! The vocabulary that the cost estimator, the confirmation tokens and the spend meters share:
accounts and runs, the slots of a panel, the shape a run is priced with, and the bands of an
estimate. A decimal amount is a rational. The source's sums and products are exact while they fit
the 28 digits of a `Decimal`; past them they are rounded there, `quantize` raises, and the rationals
here say nothing. -/

namespace Quorum

open IsoTime

abbrev Uuid := BitVec 128

scoped instance lawfulBEq_uuid : LawfulBEq Uuid := inferInstance

scoped instance lawfulBEq_uuidPair : LawfulBEq (Uuid × Uuid) := inferInstance

/-! The numerals of the prices. -/

scoped instance atLeastTwo_two : Nat.AtLeastTwo 2 := inferInstance

scoped instance atLeastTwo_five : Nat.AtLeastTwo 5 := inferInstance

scoped instance atLeastTwo_ten : Nat.AtLeastTwo 10 := inferInstance

scoped instance atLeastTwo_thousand : Nat.AtLeastTwo 1000 := inferInstance

/-- A `Decimal` amount of US dollars. -/
abbrev Usd := ℚ

def minSlotCount : Nat := 2

def maxSlotCount : Nat := 4

theorem slotNumber_one_range : 1 ≤ 1 ∧ 1 ≤ maxSlotCount := by decide

theorem slotNumber_two_range : 1 ≤ 2 ∧ 2 ≤ maxSlotCount := by decide

theorem slotNumber_three_range : 1 ≤ 3 ∧ 3 ≤ maxSlotCount := by decide

/-- The calendar has a first instant. -/
theorem instants_pos : 0 < maxDays * microsPerDay := by decide

/-- One model of a panel, in a slot whose number is one the panel has. -/
structure ModelSlot where
  slotNumber : Nat
  modelId : String
  search : Bool
  range : 1 ≤ slotNumber ∧ slotNumber ≤ maxSlotCount
  deriving DecidableEq

inductive Mode where
  | panel
  | quick
  deriving DecidableEq, Repr

/-- The critique a run is priced with. A quick answer has none. -/
inductive CritiqueShape where
  | moderator
  | peer
  | quick
  deriving DecidableEq, Repr

/-- The shape the estimate prices with, from the `peer_critique_enabled` setting. -/
def pricedCritiqueShape (peerCritiqueEnabled : Bool) : CritiqueShape :=
  if peerCritiqueEnabled then .peer else .moderator

/-- The shape a confirmation token binds for a request of a mode. -/
def tokenShape (peerCritiqueEnabled : Bool) (mode : Mode) : CritiqueShape :=
  if mode = .quick then .quick else pricedCritiqueShape peerCritiqueEnabled

/-- The ordered `(model_id, search)` pairs of a panel. -/
abbrev PanelKey := List (String × Bool)

def panelKey (modelSlots : List ModelSlot) : PanelKey :=
  modelSlots.map fun slot => (slot.modelId, slot.search)

inductive CostThresholdAction where
  | allow
  | requireConfirmation
  | block
  deriving DecidableEq, Repr

end Quorum
