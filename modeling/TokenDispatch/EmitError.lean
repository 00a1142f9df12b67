/-!
Errors of code generation: a malformed method, or an emitter used out of order. Each family has a
code, and the wording of every error an assembler or the generator raises is kept here.
-/

namespace TokenDispatch

inductive EmitError where
  | typeMismatch (context expected found : String)
  | notFound (what name : String)
  | invalidState (problem : String) (context : Option String)
  | tooManyMethods (count : Nat)
deriving DecidableEq

namespace EmitError

def code : EmitError → String
  | typeMismatch .. => "E3003"
  | notFound .. => "E3004"
  | invalidState .. => "E3005"
  | tooManyMethods .. => "E3007"

def message : EmitError → String
  | typeMismatch context expected found => s!"{context}: expected {expected}, found {found}"
  | notFound what name => s!"{what} not found: {name}"
  | invalidState problem none => "invalid emitter state: " ++ problem
  | invalidState problem (some context) => s!"invalid emitter state: {problem} ({context})"
  | tooManyMethods count => s!"{count} methods exceed the dispatch token range"

/-! Malformed methods. -/

def callTarget (found : String) : EmitError :=
  typeMismatch "call target" "a class or interface" found

def narrowingToVoid : EmitError := typeMismatch "coercion target" "a value type" "void"

def parameterIndex (index : Nat) : EmitError :=
  typeMismatch "parameter index" "an int" (toString index)

def routineNames (expected found : Nat) : EmitError :=
  typeMismatch "dispatch routines" s!"{expected} routine names" (toString found)

/-! Units and routines begun or ended out of order. -/

def unitStarted (name : String) : EmitError := invalidState "unit already started" (some name)

def routineBeforeUnit : EmitError := invalidState "method begun before the unit" none

def routineInRoutine (openRoutine : String) : EmitError :=
  invalidState "method begun inside another method" (some openRoutine)

def outsideRoutine : EmitError := invalidState "instruction outside of a method" none

def endOutsideRoutine : EmitError := invalidState "end_method without begin_method" none

def fallsOffEnd (routine : String) : EmitError :=
  invalidState "routine falls off its end" (some routine)

def duplicateRoutine (name descriptor : String) : EmitError :=
  invalidState "duplicate method" (some (name ++ descriptor))

def unitWithOpenRoutine (openRoutine : String) : EmitError :=
  invalidState "unit finished with an open method" (some openRoutine)

def unitNotBegun : EmitError := invalidState "unit finished before it was begun" none

/-! Instructions that do not fit the routine they are in. -/

def parameterCount (found : Nat) : EmitError :=
  typeMismatch "parameter count" "at most 65534" (toString found)

def argumentCount (found : Nat) : EmitError :=
  typeMismatch "argument count" "at most 65535" (toString found)

def localSlot (limit found : Nat) : EmitError :=
  typeMismatch "local slot" s!"below {limit}" (toString found)

def castTarget (found : String) : EmitError :=
  typeMismatch "cast target" "a reference type" found

def returnKind (declared found : String) : EmitError := typeMismatch "return" declared found

def unreachable (place : String) : EmitError :=
  invalidState "unreachable instruction" (some place)

def stackUnderflow (place : String) : EmitError :=
  invalidState "operand stack underflow" (some place)

def stackOverflow (place : String) : EmitError :=
  invalidState "operand stack overflow" (some place)

/-! Labels and switches. -/

def unknownLabel (label : Nat) : EmitError := notFound "label" s!"L{label}"

def placedTwice (label : Nat) (routine : String) : EmitError :=
  invalidState "label placed twice" (some s!"L{label} in {routine}")

def depthAtLabel (label : Nat) (routine : String) : EmitError :=
  invalidState "inconsistent stack depth at label" (some s!"L{label} in {routine}")

def unplacedLabel (label : Nat) (routine : String) : EmitError :=
  invalidState "branch to unplaced label" (some s!"L{label} in {routine}")

def duplicateKey (key : Int32) : EmitError :=
  invalidState "duplicate switch key" (some (toString key.toInt))

def tableWithoutTargets : EmitError := invalidState "table switch without targets" none

end EmitError

end TokenDispatch
