import Mathlib.Data.List.Basic
import Mathlib.Tactic

/-! Single flight for one key: a caller claims the key, pays for the result, publishes it, and the
held result may be evicted. A list of moves is legal when it replays from the idle slot; its newest
move comes first. In a legal list no more than one payment stands between two evictions. -/

namespace Flight

inductive Slot (ι : Type*) where
  | idle
  | claimed (payer : ι)
  | paid (payer : ι)
  | held
deriving DecidableEq

inductive Move (ι : Type*) where
  | claim (payer : ι)
  | pay (payer : ι)
  | publish (payer : ι)
  | evict
deriving DecidableEq

variable {ι : Type*}

/-- The payments since the newest eviction. -/
def paysSinceEvict : List (Move ι) → ℕ
  | [] => 0
  | .pay _ :: earlier => paysSinceEvict earlier + 1
  | .evict :: _ => 0
  | .claim _ :: earlier => paysSinceEvict earlier
  | .publish _ :: earlier => paysSinceEvict earlier

/-- How many payments a slot can have had since the last eviction. -/
def Slot.credit : Slot ι → ℕ
  | .idle => 0
  | .claimed _ => 0
  | .paid _ => 1
  | .held => 1

variable [DecidableEq ι]

/-- Only the caller that claimed the slot pays and publishes, and it pays at most once. -/
def Slot.move : Slot ι → Move ι → Option (Slot ι)
  | .idle, .claim payer => some (.claimed payer)
  | .claimed owner, .pay payer => if owner = payer then some (.paid owner) else none
  | .claimed owner, .publish payer => if owner = payer then some .held else none
  | .paid owner, .publish payer => if owner = payer then some .held else none
  | .held, .evict => some .idle
  | _, _ => none

/-- The slot that a list of moves leads to. -/
def replay : List (Move ι) → Option (Slot ι)
  | [] => some .idle
  | move :: earlier => (replay earlier).bind fun slot => slot.move move

theorem replay_cons {move : Move ι} {earlier : List (Move ι)} {slot slot' : Slot ι}
    (hreplay : replay earlier = some slot) (hmove : slot.move move = some slot') :
    replay (move :: earlier) = some slot' := by
  rw [replay, hreplay, Option.bind_some, hmove]

theorem replay_cons_inv {move : Move ι} {earlier : List (Move ι)} {slot' : Slot ι}
    (h : replay (move :: earlier) = some slot') :
    ∃ slot, replay earlier = some slot ∧ slot.move move = some slot' :=
  Option.bind_eq_some_iff.mp h

/-- What a move that a slot allows can be. -/
theorem Slot.move_cases {slot slot' : Slot ι} {move : Move ι} (h : slot.move move = some slot') :
    (∃ payer, slot = .idle ∧ move = .claim payer ∧ slot' = .claimed payer) ∨
    (∃ payer, slot = .claimed payer ∧ move = .pay payer ∧ slot' = .paid payer) ∨
    (∃ payer, (slot = .claimed payer ∨ slot = .paid payer) ∧ move = .publish payer
      ∧ slot' = .held) ∨
    (slot = .held ∧ move = .evict ∧ slot' = .idle) := by
  cases slot <;> cases move <;> simp_all [Slot.move]

theorem replay_of_append {later earlier : List (Move ι)} {slot : Slot ι}
    (h : replay (later ++ earlier) = some slot) : ∃ slot', replay earlier = some slot' := by
  induction later generalizing slot with
  | nil => exact ⟨slot, h⟩
  | cons move later ih =>
      obtain ⟨_, hlater, _⟩ := replay_cons_inv h
      exact ih hlater

/-- A payment is made out of the payer's own claim. -/
theorem claimed_of_pay (later : List (Move ι)) {earlier : List (Move ι)} {payer : ι} {slot : Slot ι}
    (h : replay (later ++ .pay payer :: earlier) = some slot) :
    replay earlier = some (.claimed payer) := by
  obtain ⟨slot', hpay⟩ := replay_of_append h
  obtain ⟨before, hbefore, hmove⟩ := replay_cons_inv hpay
  rcases Slot.move_cases hmove with ⟨_, _, h, _⟩ | ⟨_, hslot, h, _⟩ | ⟨_, _, h, _⟩ | ⟨_, h, _⟩
  · cases h
  · cases h
    rw [hbefore, hslot]
  · cases h
  · cases h

theorem paysSinceEvict_le_credit {moves : List (Move ι)} {slot : Slot ι}
    (h : replay moves = some slot) :
    paysSinceEvict moves ≤ slot.credit := by
  induction moves generalizing slot with
  | nil =>
      cases h
      exact le_refl 0
  | cons move earlier ih =>
      obtain ⟨before, hbefore, hmove⟩ := replay_cons_inv h
      have hle := ih hbefore
      rcases Slot.move_cases hmove with ⟨_, rfl, rfl, rfl⟩ | ⟨_, rfl, rfl, rfl⟩ |
        ⟨_, hslot, rfl, rfl⟩ | ⟨rfl, rfl, rfl⟩
      · exact hle
      · exact Nat.succ_le_succ hle
      · rcases hslot with rfl | rfl
        · exact hle.trans (Nat.zero_le 1)
        · exact hle
      · exact le_refl 0

/-- No more than one payment stands after the newest eviction. -/
theorem paysSinceEvict_le_one {moves : List (Move ι)} {slot : Slot ι}
    (h : replay moves = some slot) :
    paysSinceEvict moves ≤ 1 :=
  (paysSinceEvict_le_credit h).trans (by cases slot <;> simp [Slot.credit])

end Flight
