/-!
# Errors of a running program

A program fails with a fault and the line of what caused it.  The wording of all faults is here.
-/

namespace Scriptlet

/-- What went wrong. -/
inductive Fault where
  /-- A variable that no scope in reach declares. -/
  | undefinedVariable (name : String)
  /-- An operand of arithmetic or of an order that is no number. -/
  | operandNotNumber
  /-- Operands of `+` that are neither two numbers nor two texts. -/
  | operandsNotAddable
  /-- Output that could not be written, for a reason that is not the program's. -/
  | outputFailed (reason : String)
deriving Repr, DecidableEq

/-- The wording of a fault. -/
def Fault.message : Fault → String
  | undefinedVariable name => "Undefined variable '" ++ name ++ "'."
  | operandNotNumber => "Operand must be a number."
  | operandsNotAddable => "Operands must be two numbers or two strings."
  | outputFailed reason => "Failed to write output: " ++ reason

/-- An error that ends a run. -/
structure RuntimeError where
  /-- What went wrong. -/
  fault : Fault
  /-- The line it is blamed on; zero if there is none. -/
  line : Nat
deriving Repr, DecidableEq

/-- The text shown for an error. -/
def RuntimeError.text (e : RuntimeError) : String :=
  e.fault.message ++ "\n[line " ++ toString e.line ++ "]"

end Scriptlet
