import Mathlib.Tactic

/-! Transactions over a state. A script is a computation that may raise, and a raise keeps the state
it had reached; a transaction runs a script between a BEGIN and a COMMIT and puts the state of the
BEGIN back when anything raises or when the script asks for a ROLLBACK. -/

universe u

namespace Transaction

variable {ε σ α β : Type u}

/-- Scripts over a state `σ` that raise `ε`. -/
abbrev Script (ε σ α : Type u) := EStateM ε σ α

/-- Whether a statement raises, by its number in the script. -/
abbrev Faults (ε : Type u) := Nat → Option ε

/-- The state a script leaves, whether it answers or raises. -/
def after (x : Script ε σ α) (s : σ) : σ :=
  match x s with
  | .ok _ s => s
  | .error _ s => s

/-- What a script answers, none when it raises. -/
def answered (x : Script ε σ α) (s : σ) : Option α :=
  match x s with
  | .ok answer _ => some answer
  | .error _ _ => none

/-- The `n`-th statement of a script: it raises and changes nothing, or it runs. -/
def execute (faults : Faults ε) (n : Nat) (statement : σ → α × σ) : Script ε σ α := fun s =>
  match faults n with
  | some raised => .error raised s
  | none => .ok (statement s).1 (statement s).2

/-- The `n`-th statement of a script, run only when `runs` is set. -/
def executeWhen (runs : Bool) (faults : Faults ε) (n : Nat) (statement : σ → PUnit × σ) :
    Script ε σ PUnit :=
  if runs then execute faults n statement else pure ⟨⟩

/-- How the body of a transaction ends when it does not raise. -/
inductive Finish (α : Type u) where
  | commit (answer : α)
  | rollback (answer : α)

/-- `BEGIN` is statement 0 and `COMMIT` is statement `last` of the script. -/
def transaction (faults : Faults ε) (last : Nat) (body : Script ε σ (Finish α)) :
    Script ε σ α := fun s =>
  match faults 0 with
  | some raised => .error raised s
  | none =>
      match body s with
      | .error raised _ => .error raised s
      | .ok (.rollback answer) _ => .ok answer s
      | .ok (.commit answer) s' =>
          match faults last with
          | some raised => .error raised s
          | none => .ok answer s'

/-- Answer `fallback` in place of a raise that `catches` accepts. -/
def recover (catches : ε → Bool) (fallback : α) (x : Script ε σ α) : Script ε σ α := fun s =>
  match x s with
  | .ok answer s => .ok answer s
  | .error raised s => if catches raised then .ok fallback s else .error raised s

/-- A sequence that answers answered at each step. -/
theorem bind_ok {x : Script ε σ α} {f : α → Script ε σ β} {s s' : σ} {answer : β}
    (h : (x >>= f) s = .ok answer s') : ∃ a s₁, x s = .ok a s₁ ∧ f a s₁ = .ok answer s' := by
  change EStateM.bind x f s = .ok answer s' at h
  unfold EStateM.bind at h
  cases hx : x s with
  | ok a s₁ => rw [hx] at h; exact ⟨a, s₁, rfl, h⟩
  | error raised s₁ => rw [hx] at h; cases h

theorem pure_ok {a answer : α} {s s' : σ} (h : (pure a : Script ε σ α) s = .ok answer s') :
    answer = a ∧ s' = s := by
  cases h
  exact ⟨rfl, rfl⟩

theorem execute_ok {faults : Faults ε} {n : Nat} {statement : σ → α × σ} {s s' : σ} {answer : α}
    (h : execute faults n statement s = .ok answer s') :
    answer = (statement s).1 ∧ s' = (statement s).2 := by
  unfold execute at h
  cases hfault : faults n with
  | some raised => rw [hfault] at h; cases h
  | none => rw [hfault] at h; cases h; exact ⟨rfl, rfl⟩

/-- What a transaction can do: raise and change nothing, roll back and change nothing, or commit
what its body did. -/
theorem transaction_cases (faults : Faults ε) (last : Nat) (body : Script ε σ (Finish α)) (s : σ) :
    (∃ raised, transaction faults last body s = .error raised s) ∨
      (∃ answer s', body s = .ok (.rollback answer) s' ∧
        transaction faults last body s = .ok answer s) ∨
      (∃ answer s', body s = .ok (.commit answer) s' ∧
        transaction faults last body s = .ok answer s') := by
  unfold transaction
  cases hbegin : faults 0 with
  | some raised => exact .inl ⟨raised, rfl⟩
  | none =>
      cases hbody : body s with
      | error raised s' => exact .inl ⟨raised, rfl⟩
      | ok finish s' =>
          cases finish with
          | rollback answer => exact .inr (.inl ⟨answer, s', rfl, rfl⟩)
          | commit answer =>
              cases hcommit : faults last with
              | some raised => exact .inl ⟨raised, by simp⟩
              | none => exact .inr (.inr ⟨answer, s', rfl, by simp⟩)

/-- A raise is answered or passed on; either way the state is the raising script's. -/
theorem recover_error (catches : ε → Bool) (fallback : α) {x : Script ε σ α} {s s' : σ} {raised : ε}
    (h : x s = .error raised s') :
    recover catches fallback x s = .ok fallback s' ∨
    recover catches fallback x s = .error raised s' := by
  cases hcatches : catches raised with
  | true => exact .inl (by simp [recover, h, hcatches])
  | false => exact .inr (by simp [recover, h, hcatches])

theorem recover_ok {catches : ε → Bool} {fallback : α} {x : Script ε σ α} {s s' : σ} {answer : α}
    (h : x s = .ok answer s') : recover catches fallback x s = .ok answer s' := by
  unfold recover
  rw [h]

/-! ### Relations between the states before and after -/

/-- Every run of the script, whether it answers or raises, relates the two states. -/
def Moves (R : σ → σ → Prop) (x : Script ε σ α) : Prop := ∀ s, R s (after x s)

theorem after_recover (catches : ε → Bool) (fallback : α) (x : Script ε σ α) (s : σ) :
    after (recover catches fallback x) s = after x s := by
  unfold after
  cases hx : x s with
  | ok answer s' => rw [recover_ok hx]
  | error raised s' =>
      rcases recover_error catches fallback hx with h | h <;> rw [h]

theorem after_pure (answer : α) (s : σ) : after (pure answer : Script ε σ α) s = s := rfl

theorem after_of_ok {x : Script ε σ α} {s s' : σ} {answer : α} (h : x s = .ok answer s') :
    after x s = s' := by
  rw [after, h]

theorem after_of_error {x : Script ε σ α} {s s' : σ} {raised : ε} (h : x s = .error raised s') :
    after x s = s' := by
  rw [after, h]

theorem answered_eq_some {x : Script ε σ α} {s : σ} {answer : α} :
    answered x s = some answer ↔ ∃ s', x s = .ok answer s' := by
  rw [answered]
  cases x s with
  | ok a s' => simp
  | error raised s' => simp

theorem bind_of_ok {x : Script ε σ α} (f : α → Script ε σ β) {s s' : σ} {a : α}
    (h : x s = .ok a s') :
    (x >>= f) s = f a s' := by
  change EStateM.bind x f s = f a s'
  simp [EStateM.bind, h]

theorem bind_of_error {x : Script ε σ α} (f : α → Script ε σ β) {s s' : σ} {raised : ε}
    (h : x s = .error raised s') : (x >>= f) s = .error raised s' := by
  change EStateM.bind x f s = .error raised s'
  simp [EStateM.bind, h]

theorem after_bind_ok {x : Script ε σ α} (f : α → Script ε σ β) {s s' : σ} {a : α}
    (h : x s = .ok a s') :
    after (x >>= f) s = after (f a) s' := by
  rw [after, bind_of_ok f h, after]

theorem after_bind_error {x : Script ε σ α} (f : α → Script ε σ β) {s s' : σ} {raised : ε}
    (h : x s = .error raised s') : after (x >>= f) s = s' :=
  after_of_error (bind_of_error f h)

/-- What is computed from an answer does not change the state. -/
theorem after_map (x : Script ε σ α) (f : α → β) (s : σ) :
    after (x >>= fun a => pure (f a)) s = after x s := by
  cases hx : x s with
  | ok a s' =>
      rw [after_bind_ok _ hx, after_of_ok hx]
      rfl
  | error raised s' => rw [after_bind_error _ hx, after_of_error hx]

theorem Moves.of_ok {R : σ → σ → Prop} {x : Script ε σ α} (h : Moves R x) {s s' : σ} {answer : α}
    (hx : x s = .ok answer s') : R s s' := after_of_ok hx ▸ h s

section

variable {R : σ → σ → Prop} [Std.Refl R]

protected theorem Moves.pure (answer : α) : Moves R (pure answer : Script ε σ α) := fun s => refl s

protected theorem Moves.execute (faults : Faults ε) (n : Nat) {statement : σ → α × σ}
    (h : ∀ s, R s (statement s).2) : Moves R (execute faults n statement) := by
  intro s
  unfold after Transaction.execute
  cases faults n with
  | some raised => exact refl s
  | none => exact h s

protected theorem Moves.executeWhen (runs : Bool) (faults : Faults ε) (n : Nat)
    {statement : σ → PUnit × σ} (h : ∀ s, R s (statement s).2) :
    Moves R (executeWhen runs faults n statement) := by
  unfold Transaction.executeWhen
  split_ifs
  · exact Moves.execute faults n h
  · exact Moves.pure _

/-- A relation that holds of no change and of what a body commits holds of the transaction. -/
theorem after_transaction (faults : Faults ε) (last : Nat) {body : Script ε σ (Finish α)} {s : σ}
    (h : ∀ answer s', body s = .ok (.commit answer) s' → R s s') :
    R s (after (transaction faults last body) s) := by
  unfold after
  rcases transaction_cases faults last body s with ⟨raised, hx⟩ | ⟨answer, s', -, hx⟩ |
    ⟨answer, s', hbody, hx⟩
  · rw [hx]; exact refl s
  · rw [hx]; exact refl s
  · rw [hx]; exact h answer s' hbody

protected theorem Moves.transaction (faults : Faults ε) (last : Nat) {body : Script ε σ (Finish α)}
    (h : Moves R body) : Moves R (transaction faults last body) := by
  intro s
  refine after_transaction faults last fun answer s' hbody => ?_
  have hmoves := h s
  rwa [after, hbody] at hmoves

end

protected theorem Moves.bind {R : σ → σ → Prop} [IsTrans σ R] {x : Script ε σ α}
    {f : α → Script ε σ β} (hx : Moves R x) (hf : ∀ a, Moves R (f a)) : Moves R (x >>= f) := by
  intro s
  have hfirst := hx s
  cases hrun : x s with
  | ok a s' =>
      rw [after_bind_ok _ hrun]
      rw [after, hrun] at hfirst
      exact IsTrans.trans _ _ _ hfirst (hf a s')
  | error raised s' =>
      rw [after_bind_error _ hrun]
      rwa [after, hrun] at hfirst

protected theorem Moves.recover {R : σ → σ → Prop} {x : Script ε σ α} (h : Moves R x)
    (catches : ε → Bool) (fallback : α) : Moves R (recover catches fallback x) := by
  intro s
  rw [after_recover]
  exact h s

/-! ### Failure changes nothing -/

theorem eq_of_recover_ok {catches : ε → Bool} {fallback answer : α} {x : Script ε σ α} {s s' : σ}
    (h : recover catches fallback x s = .ok answer s') :
    x s = .ok answer s' ∨ answer = fallback := by
  cases hx : x s with
  | ok a s₁ => exact .inl ((recover_ok hx).symm.trans h)
  | error raised s₁ =>
      rcases recover_error catches fallback hx with heq | heq
      · rw [heq] at h
        cases h
        exact .inr rfl
      · rw [heq] at h
        cases h

/-- A script that changes nothing unless it answers something accepted by `done`. -/
def Guarded (done : α → Prop) (x : Script ε σ α) : Prop :=
  ∀ s, (∃ answer s', x s = .ok answer s' ∧ (done answer ∨ s' = s)) ∨ ∃ raised, x s = .error raised s

protected theorem Guarded.pure {done : α → Prop} (answer : α) :
    Guarded (ε := ε) (σ := σ) done (pure answer) :=
  fun s => .inl ⟨answer, s, rfl, .inr rfl⟩

protected theorem Guarded.recover {done : α → Prop} {x : Script ε σ α} (h : Guarded done x)
    (catches : ε → Bool) (fallback : α) : Guarded done (recover catches fallback x) := by
  intro s
  rcases h s with ⟨answer, s', hx, hdone⟩ | ⟨raised, hx⟩
  · exact .inl ⟨answer, s', recover_ok hx, hdone⟩
  · rcases recover_error catches fallback hx with heq | heq
    · exact .inl ⟨fallback, s, heq, .inr rfl⟩
    · exact .inr ⟨raised, heq⟩

protected theorem Guarded.transaction {done : α → Prop} (faults : Faults ε) (last : Nat)
    {body : Script ε σ (Finish α)}
    (h : ∀ s answer s', body s = .ok (.commit answer) s' → done answer ∨ s' = s) :
    Guarded done (transaction faults last body) := by
  intro s
  rcases transaction_cases faults last body s with ⟨raised, hx⟩ | ⟨answer, s', -, hx⟩ |
    ⟨answer, s', hbody, hx⟩
  · exact .inr ⟨raised, hx⟩
  · exact .inl ⟨answer, s, hx, .inr rfl⟩
  · exact .inl ⟨answer, s', hx, h s answer s' hbody⟩

protected theorem Guarded.execute {done : α → Prop} (faults : Faults ε) (n : Nat)
    {statement : σ → α × σ} (h : ∀ s, done (statement s).1 ∨ (statement s).2 = s) :
    Guarded done (execute faults n statement) := by
  intro s
  unfold Transaction.execute
  cases faults n with
  | some raised => exact .inr ⟨raised, rfl⟩
  | none => exact .inl ⟨_, _, rfl, h s⟩

/-- A script that never changes the state. -/
def Reads (x : Script ε σ α) : Prop := ∀ s, after x s = s

protected theorem Guarded.bind {done : β → Prop} {x : Script ε σ α} {f : α → Script ε σ β}
    (hx : Reads x) (hf : ∀ a, Guarded done (f a)) : Guarded done (x >>= f) := by
  intro s
  have hsame := hx s
  cases hrun : x s with
  | error raised s' =>
      rw [(after_of_error hrun).symm.trans hsame] at hrun
      exact .inr ⟨raised, bind_of_error f hrun⟩
  | ok a s' =>
      rw [(after_of_ok hrun).symm.trans hsame] at hrun
      rw [bind_of_ok f hrun]
      exact hf a s

protected theorem Guarded.map {done : α → Prop} {done' : β → Prop} {x : Script ε σ α}
    (hx : Guarded done x) {f : α → β} (hf : ∀ a, done a → done' (f a)) :
    Guarded done' (x >>= fun a => pure (f a)) := by
  intro s
  rcases hx s with ⟨answer, s', hrun, hdone⟩ | ⟨raised, hrun⟩
  · exact .inl ⟨f answer, s', bind_of_ok _ hrun, hdone.imp_left (hf answer)⟩
  · exact .inr ⟨raised, bind_of_error _ hrun⟩

end Transaction
