import Quorum.BaseHoare

/-! Programs that ask the world outside them. An answer may depend on all that was asked and
answered before, so what holds for every outside holds for every schedule, fault and adversary. A
policy says which question may be asked after which history, and a history obeys it when each of its
questions may. -/

namespace Inquiry

open Transaction

variable {Q : Type} {A : Q → Type} {ε α β : Type}

/-- A question and its answer. -/
structure Event (A : Q → Type) where
  question : Q
  answer : A question

/-- What was asked, oldest first. -/
abbrev History (A : Q → Type) := List (Event A)

abbrev Outside (A : Q → Type) := History A → (question : Q) → A question

abbrev Policy (A : Q → Type) := History A → Q → Prop

def ask (outside : Outside A) (question : Q) : Script ε (History A) (A question) := fun history =>
  .ok (outside history question) (history ++ [⟨question, outside history question⟩])

/-- Each question of the history may be asked after what came before it. -/
def Obeys (policy : Policy A) (history : History A) : Prop :=
  ∀ before event after, history = before ++ event :: after → policy before event.question

theorem obeys_nil (policy : Policy A) : Obeys policy [] := by
  intro before event after h
  exact absurd h.symm (List.append_ne_nil_of_right_ne_nil before (List.cons_ne_nil event after))

theorem Obeys.concat {policy : Policy A} {history : History A} {event : Event A}
    (h : Obeys policy history) (hevent : policy history event.question) :
    Obeys policy (history ++ [event]) := by
  intro before other after heq
  rcases List.eq_nil_or_concat after with rfl | ⟨rest, last, rfl⟩
  · obtain ⟨rfl, hlast⟩ := List.append_inj' heq rfl
    obtain ⟨rfl, -⟩ := List.cons.inj hlast
    exact hevent
  · rw [List.concat_eq_append, ← List.cons_append, ← List.append_assoc] at heq
    exact h before other rest (List.append_inj' heq rfl).1

theorem Obeys.mono {policy policy' : Policy A} {history : History A} (h : Obeys policy history)
    (himp : ∀ before question, policy before question → policy' before question) :
    Obeys policy' history :=
  fun before event after heq => himp before event.question (h before event after heq)

/-- How many of the questions are of a kind. -/
def asked (p : Q → Bool) (history : History A) : ℕ := history.countP fun event => p event.question

@[simp]
theorem asked_concat (p : Q → Bool) (history : History A) (event : Event A) :
    asked p (history ++ [event]) = asked p history + if p event.question then 1 else 0 := by
  rw [asked, asked, List.countP_append, List.countP_singleton]

/-! ### Triples -/

/-- What holds before and after a script whose questions obey a policy. -/
def Keeps (policy : Policy A) (P : History A → Prop) (x : Script ε (History A) α)
    (R : α → History A → Prop) (E : ε → History A → Prop) : Prop :=
  Triple (fun history => Obeys policy history ∧ P history) x
    (fun answer history => Obeys policy history ∧ R answer history)
    (fun raised history => Obeys policy history ∧ E raised history)

namespace Keeps

variable {policy : Policy A} {P P' : History A → Prop} {R R' : α → History A → Prop}
  {E E' : ε → History A → Prop}

protected theorem ask {outside : Outside A} {question : Q} {R : A question → History A → Prop}
    (hpolicy : ∀ history, P history → policy history question)
    (h : ∀ history answer, P history → R answer (history ++ [⟨question, answer⟩])) :
    Keeps policy P (ask outside question) R E :=
  fun history hhistory =>
    ⟨hhistory.1.concat (hpolicy history hhistory.2),
      h history (outside history question) hhistory.2⟩

protected theorem pure {answer : α} (h : ∀ history, P history → R answer history) :
    Keeps policy P (pure answer) R E :=
  Triple.pure fun history hhistory => ⟨hhistory.1, h history hhistory.2⟩

protected theorem throw {raised : ε} (h : ∀ history, P history → E raised history) :
    Keeps policy P (throw raised : Script ε (History A) α) R E :=
  Triple.throw fun history hhistory => ⟨hhistory.1, h history hhistory.2⟩

protected theorem bind {S : β → History A → Prop} {x : Script ε (History A) α}
    {f : α → Script ε (History A) β} (hx : Keeps policy P x R E)
    (hf : ∀ a, Keeps policy (R a) (f a) S E) : Keeps policy P (x >>= f) S E :=
  Triple.bind hx hf

protected theorem ite {c : Prop} [Decidable c] {x y : Script ε (History A) α}
    (hx : c → Keeps policy P x R E) (hy : ¬c → Keeps policy P y R E) :
    Keeps policy P (if c then x else y) R E :=
  Triple.ite hx hy

theorem strengthen {x : Script ε (History A) α} (h : Keeps policy P x R E)
    (hP : ∀ history, P' history → P history) : Keeps policy P' x R E :=
  Triple.strengthen h fun history hhistory => ⟨hhistory.1, hP history hhistory.2⟩

theorem weaken {x : Script ε (History A) α} (h : Keeps policy P x R E)
    (hR : ∀ answer history, R answer history → R' answer history) : Keeps policy P x R' E :=
  Triple.weaken h fun answer history hhistory => ⟨hhistory.1, hR answer history hhistory.2⟩

/-- What answered was run from where the precondition held. -/
theorem ran {x : Script ε (History A) α} (h : Keeps policy P x R E) :
    Keeps policy P x (fun answer history => R answer history ∧ ∃ earlier,
      x earlier = .ok answer history) E := by
  intro history hhistory
  have hrun := h history hhistory
  cases hx : x history with
  | ok answer after =>
      rw [hx] at hrun
      exact ⟨hrun.1, hrun.2, history, hx⟩
  | error raised after => rwa [hx] at hrun

/-- A fact that no history matters to. -/
theorem of_fact {x : Script ε (History A) α} {fact : Prop} (h : fact → Keeps policy P x R E) :
    Keeps policy (fun history => fact ∧ P history) x R E :=
  fun history hhistory => h hhistory.2.1 history ⟨hhistory.1, hhistory.2.2⟩

end Keeps

end Inquiry
