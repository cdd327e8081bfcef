/-!
# Computations that may fail

How a sequence of two such computations comes out.
-/

namespace Except

variable {Fault Value Result : Type} {first : Except Fault Value}
  {second : Value → Except Fault Result}

/-- What has come out well is handed on. -/
@[simp]
theorem ok_bind (value : Value) : (.ok value : Except Fault Value) >>= second = second value :=
  rfl

/-- A fault ends what follows. -/
@[simp]
theorem error_bind (fault : Fault) :
    (.error fault : Except Fault Value) >>= second = .error fault :=
  rfl

/-- A sequence succeeds if both computations do. -/
theorem bind_eq_ok_iff {result : Result} :
    first >>= second = .ok result ↔
      ∃ value, first = .ok value ∧ second value = .ok result := by
  cases first with
  | error fault => simp
  | ok value => simp

/-- A sequence fails where the first of its computations that fails does. -/
theorem bind_eq_error_iff {fault : Fault} :
    first >>= second = .error fault ↔
      first = .error fault ∨ ∃ value, first = .ok value ∧ second value = .error fault := by
  cases first with
  | error fault => simp
  | ok value => simp

end Except
