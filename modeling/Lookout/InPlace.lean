/-
Lookout.InPlace — programs that change something in place and may fail half-way.

What a program has changed before it fails stays changed. A program that is to
leave everything as it was must do all that can fail before its first change, or
do it in a place of its own.
-/

namespace Lookout

/-- Programs that change a state in place. What one has changed before it fails
stays changed. -/
abbrev InPlace (ε σ : Type) := ExceptT ε (StateM σ)

namespace InPlace

variable {ε σ α β : Type}

/-- What a program gives, and the state that it leaves. -/
def runOn (program : InPlace ε σ α) (s : σ) : Except ε α × σ := program.run.run s

/-- The state that a program leaves if it does not fail. -/
def outcome (program : InPlace ε σ Unit) (s : σ) : Except ε σ :=
  match program.runOn s with
  | (.ok (), left) => .ok left
  | (.error e, _) => .error e

theorem outcome_of_ok {program : InPlace ε σ Unit} {s left : σ}
    (h : program.runOn s = (.ok (), left)) : program.outcome s = .ok left := by
  rw [outcome, h]

theorem outcome_of_error {program : InPlace ε σ Unit} {s left : σ} {e : ε}
    (h : program.runOn s = (.error e, left)) : program.outcome s = .error e := by
  rw [outcome, h]

/-- A step that only reads a result does not touch the state. -/
theorem runOn_ofExcept_bind (x : Except ε α) (next : α → InPlace ε σ β) (s : σ) :
    (MonadExcept.ofExcept x >>= next : InPlace ε σ β).runOn s =
      match x with
      | .ok a => (next a).runOn s
      | .error e => (.error e, s) := by
  cases x <;> rfl

/-- The second of two programs begins where the first has ended well. -/
theorem runOn_seq (first second : InPlace ε σ Unit) (s : σ) :
    (do first; second : InPlace ε σ Unit).runOn s =
      match first.runOn s with
      | (.ok (), left) => second.runOn left
      | (.error e, left) => (.error e, left) := by
  simp only [runOn, ExceptT.run_bind, StateT.run_bind]
  cases first.run.run s with
  | mk result left => cases result <;> rfl

end InPlace

end Lookout
