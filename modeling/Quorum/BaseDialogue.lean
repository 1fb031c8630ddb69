import Mathlib.Data.List.Basic
import Mathlib.Tactic

/-! Programs that receive messages from a source and send messages. A run records both, and what it
leaves of the source; it waits where the source has nothing more. Two sources that answer alike give
a program the same run, and a source in front of another one answers like the two lists one after
the other. -/

namespace Dialogue

universe u

variable {ι ο σ τ : Type u}

/-- A program, by what it does next. -/
inductive Program (ι ο : Type u)
  | finish
  | receive (next : ι → Program ι ο)
  | send (message : ο) (next : Program ι ο)

/-- What a run received and sent, the source that it leaves, and whether it finished. -/
structure Run (ι ο σ : Type u) where
  received : List ι
  sent : List ο
  source : σ
  finished : Bool

def Run.map (f : σ → τ) (run : Run ι ο σ) : Run ι ο τ :=
  ⟨run.received, run.sent, f run.source, run.finished⟩

def Program.run (answer : σ → Option (ι × σ)) : Program ι ο → σ → Run ι ο σ
  | .finish, source => ⟨[], [], source, true⟩
  | .receive next, source =>
      match answer source with
      | none => ⟨[], [], source, false⟩
      | some (message, source) =>
          let run := (next message).run answer source
          { run with received := message :: run.received }
  | .send message next, source =>
      let run := next.run answer source
      { run with sent := message :: run.sent }

/-- A program cannot tell apart two sources that answer alike. -/
theorem Program.run_map {answer : σ → Option (ι × σ)} {answer' : τ → Option (ι × τ)} {f : σ → τ}
    (h : ∀ source, (answer source).map (Prod.map id f) = answer' (f source)) (program : Program ι ο)
    (source : σ) :
    (program.run answer source).map f = program.run answer' (f source) := by
  induction program generalizing source with
  | finish => rfl
  | receive next ih =>
      rw [Program.run, Program.run, ← h source]
      cases hanswer : answer source with
      | none => rfl
      | some pair =>
          obtain ⟨message, source'⟩ := pair
          have hnext := ih message source'
          simp only [Option.map_some, Prod.map_apply, id_eq, ← hnext]
          rfl
  | send message next ih =>
      rw [Program.run, Program.run, ← ih source]
      rfl

/-- A list as a source. -/
def answerList : List ι → Option (ι × List ι)
  | [] => none
  | message :: rest => some (message, rest)

/-- What a run received and what it left are the list. -/
theorem Program.run_answerList (program : Program ι ο) (messages : List ι) :
    (program.run answerList messages).received ++ (program.run answerList messages).source =
      messages := by
  induction program generalizing messages with
  | finish => rfl
  | receive next ih =>
      cases messages with
      | nil => rfl
      | cons message rest => exact congrArg (message :: ·) (ih message rest)
  | send message next ih => exact ih messages

/-- A list in front of a source. -/
def answerAfter (answer : σ → Option (ι × σ)) : List ι × σ → Option (ι × (List ι × σ))
  | (message :: pending, source) => some (message, (pending, source))
  | ([], source) => (answer source).map fun (message, source) => (message, ([], source))

/-- A list in front of a list is the two lists. -/
theorem Program.run_answerAfter (program : Program ι ο) (pending messages : List ι) :
    (program.run (answerAfter answerList) (pending, messages)).map (fun source =>
      source.1 ++ source.2) =
      program.run answerList (pending ++ messages) := by
  refine program.run_map (fun source => ?_) (pending, messages)
  obtain ⟨pending, messages⟩ := source
  cases pending with
  | nil => cases messages <;> rfl
  | cons message pending => rfl

end Dialogue
