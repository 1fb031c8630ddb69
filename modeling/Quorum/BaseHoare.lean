import Quorum.BaseTransaction

/-! Pre- and postconditions of scripts. A triple says what holds of the answer and the state when a
script answers, and of the raise and the state when it raises; a handler starts from what its body
guarantees of a raise. -/

universe u

namespace Transaction

variable {ε ε' σ α β : Type u}

/-- Run where `P` holds, the script answers with `Q` or raises with `E`. -/
def Triple (P : σ → Prop) (x : Script ε σ α) (Q : α → σ → Prop) (E : ε → σ → Prop) : Prop :=
  ∀ s, P s → match x s with
    | .ok answer s' => Q answer s'
    | .error raised s' => E raised s'

namespace Triple

variable {P P' : σ → Prop} {Q Q' : α → σ → Prop} {E E' : ε → σ → Prop}

theorem of_ok {x : Script ε σ α} (h : Triple P x Q E) {s s' : σ} {answer : α} (hs : P s)
    (hx : x s = .ok answer s') : Q answer s' := by
  have hrun := h s hs
  rwa [hx] at hrun

theorem of_error {x : Script ε σ α} (h : Triple P x Q E) {s s' : σ} {raised : ε} (hs : P s)
    (hx : x s = .error raised s') : E raised s' := by
  have hrun := h s hs
  rwa [hx] at hrun

/-- What holds either way holds of the state that is left. -/
theorem after {x : Script ε σ α} {I : σ → Prop} (h : Triple P x (fun _ => I) fun _ => I) {s : σ}
    (hs : P s) :
    I (Transaction.after x s) := by
  have hrun := h s hs
  rw [Transaction.after]
  cases hx : x s with
  | ok answer s' => rwa [hx] at hrun
  | error raised s' => rwa [hx] at hrun

theorem consequence {x : Script ε σ α} (h : Triple P x Q E) (hP : ∀ s, P' s → P s)
    (hQ : ∀ answer s, Q answer s → Q' answer s) (hE : ∀ raised s, E raised s → E' raised s) :
    Triple P' x Q' E' := by
  intro s hs
  have hrun := h s (hP s hs)
  cases hx : x s with
  | ok answer s' =>
      rw [hx] at hrun
      exact hQ answer s' hrun
  | error raised s' =>
      rw [hx] at hrun
      exact hE raised s' hrun

theorem strengthen {x : Script ε σ α} (h : Triple P x Q E) (hP : ∀ s, P' s → P s) :
    Triple P' x Q E :=
  h.consequence hP (fun _ _ hQ => hQ) fun _ _ hE => hE

theorem weaken {x : Script ε σ α} (h : Triple P x Q E) (hQ : ∀ answer s, Q answer s → Q' answer s) :
    Triple P x Q' E :=
  h.consequence (fun _ hP => hP) hQ fun _ _ hE => hE

protected theorem pure {answer : α} (h : ∀ s, P s → Q answer s) : Triple P (pure answer) Q E :=
  fun s hs => h s hs

protected theorem throw {raised : ε} (h : ∀ s, P s → E raised s) :
    Triple P (throw raised : Script ε σ α) Q E :=
  fun s hs => h s hs

protected theorem bind {R : α → σ → Prop} {Q : β → σ → Prop} {x : Script ε σ α}
    {f : α → Script ε σ β} (hx : Triple P x R E) (hf : ∀ a, Triple (R a) (f a) Q E) :
    Triple P (x >>= f) Q E := by
  intro s hs
  cases hrun : x s with
  | ok a s' =>
      rw [bind_of_ok f hrun]
      exact hf a s' (hx.of_ok hs hrun)
  | error raised s' =>
      rw [bind_of_error f hrun]
      exact hx.of_error hs hrun

/-- A step whose answer is not used. -/
theorem seq {I : σ → Prop} {Q : β → σ → Prop} {x : Script ε σ α} {y : Script ε σ β}
    (hx : Triple P x (fun _ => I) E) (hy : Triple I y Q E) : Triple P (x >>= fun _ => y) Q E :=
  Triple.bind hx fun _ => hy

protected theorem ite {c : Prop} [Decidable c] {x y : Script ε σ α} (hx : c → Triple P x Q E)
    (hy : ¬c → Triple P y Q E) : Triple P (if c then x else y) Q E := by
  by_cases hc : c
  · rw [if_pos hc]
    exact hx hc
  · rw [if_neg hc]
    exact hy hc

/-- A handler runs from what the body guarantees of the raise. -/
protected theorem tryCatch {R : ε → σ → Prop} {x : Script ε σ α} {handler : ε → Script ε σ α}
    (hx : Triple P x Q R) (hhandler : ∀ raised, Triple (R raised) (handler raised) Q E) :
    Triple P (tryCatch x handler) Q E := by
  intro s hs
  have hrun := hx s hs
  show match EStateM.tryCatch x handler s with
    | .ok answer s' => Q answer s'
    | .error raised s' => E raised s'
  rw [EStateM.tryCatch]
  cases hbody : x s with
  | ok answer s' => rwa [hbody] at hrun
  | error raised s' =>
      rw [hbody] at hrun
      exact hhandler raised s' hrun

protected theorem recover {R : ε → σ → Prop} {x : Script ε σ α} {catches : ε → Bool} {fallback : α}
    (hx : Triple P x Q R) (hcatch : ∀ raised s, catches raised → R raised s → Q fallback s)
    (hpass : ∀ raised s, ¬catches raised → R raised s → E raised s) :
    Triple P (recover catches fallback x) Q E := by
  intro s hs
  have hrun := hx s hs
  rw [Transaction.recover]
  cases hbody : x s with
  | ok answer s' => rwa [hbody] at hrun
  | error raised s' =>
      rw [hbody] at hrun
      cases hcaught : catches raised with
      | true => simpa [hcaught] using hcatch raised s' hcaught hrun
      | false => simpa [hcaught] using hpass raised s' (by simp [hcaught]) hrun

/-- A script that never raises answers. -/
theorem answers {x : Script ε σ α} (h : Triple P x Q fun _ _ => False) {s : σ} (hs : P s) :
    ∃ answer s', x s = .ok answer s' ∧ Q answer s' := by
  have hrun := h s hs
  cases hx : x s with
  | ok answer s' =>
      rw [hx] at hrun
      exact ⟨answer, s', rfl, hrun⟩
  | error raised s' =>
      rw [hx] at hrun
      exact hrun.elim

/-- A loop keeps what its body keeps. -/
theorem forM {I : σ → Prop} {items : List β} {body : β → Script ε σ PUnit}
    (h : ∀ item ∈ items, Triple I (body item) (fun _ => I) E) :
    Triple I (items.forM body) (fun _ => I) E := by
  induction items with
  | nil => exact Triple.pure fun s hs => hs
  | cons item items ih =>
      show Triple I (body item >>= fun _ => items.forM body) _ _
      exact (h item List.mem_cons_self).seq (ih fun i hi => h i (List.mem_cons_of_mem item hi))

end Triple

end Transaction
