import TokenDispatch.World

/-!
The contract that a dispatcher is built on: an initializer that runs once, and an answer for tokens
that no method carries.
-/

namespace TokenDispatch

/-! Names of the routines that a unit and its contract agree on. -/

namespace RoutineName

def initializer : String := "<init>"
def entry : String := "invoke"
def fallback : String := "noSuchMethod"

end RoutineName

namespace Contract

/-- The name of a contract when nothing else is said. -/
def defaultName : String := "Reflector"

end Contract

structure Contract where
  /-- What a unit must extend to be linked against this contract. -/
  name : String := Contract.defaultName
  init : Heap → Except Fault Unit × Heap := fun heap => (.ok (), heap)
  fallback : Int32 → Value → Value → Heap → Except Fault Value × Heap

namespace Contract

/-- Rejects every token that reaches it. -/
def rejecting : Contract where
  fallback token receiver _ heap := (.error (.noSuchMethod token receiver.className), heap)

/-- Answers such tokens by a function alone. -/
def answering (answer : Int32 → Value → Value → Except Fault Value) : Contract where
  fallback token receiver arguments heap := (answer token receiver arguments, heap)

def runInit (contract : Contract) : Exec Unit := World.outside contract.init .init

def runFallback (contract : Contract) (token : Int32) (receiver arguments : Value) : Exec Value :=
  World.outside (contract.fallback token receiver arguments) (.fallback token receiver arguments)

end Contract

end TokenDispatch
