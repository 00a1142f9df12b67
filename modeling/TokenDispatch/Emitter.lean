import TokenDispatch.CallSite
import TokenDispatch.EmitError

/-!
What a generator asks of whoever encodes its code. The calls are data, apart from the two that hand
something back: a new label, and the finished unit. A call that fails may have changed the emitter
already, so the state is kept beside every result.
-/

namespace TokenDispatch

inductive ReturnKind where
  | void
  | reference
deriving DecidableEq

def ReturnKind.text : ReturnKind → String
  | .void => "Void"
  | .reference => "Reference"

/-- One call on an emitter whose labels are of type `L`. -/
inductive Directive (L : Type) where
  | beginUnit (name base : String)
  | beginRoutine (access : Access) (name : String) (sig : Signature)
  /-- Binds a label to the next instruction. -/
  | placeLabel (label : L)
  | loadLocal (slot : Nat)
  | pushInt (value : Int32)
  | pushNull
  | arrayLoad
  | unbox (kind : Prim)
  | checkCast (target : Ty)
  | invoke (kind : CallKind) (owner name : String) (sig : Signature)
  | box (kind : Prim)
  | ret (kind : ReturnKind)
  | lookupSwitch (default : L) (cases : List (Int32 × L))
  /-- Goes to the target at the distance of the key from `low`, else to the default. -/
  | tableSwitch (low : Int32) (default : L) (targets : List L)
  | endRoutine
deriving DecidableEq

abbrev Emit (σ : Type) := ExceptT EmitError (StateM σ)

/-- An emitter with states `σ`, labels `L` and finished units `O`. -/
class Emitter (σ : Type) (L O : outParam Type) where
  newLabel : StateM σ L
  perform : Directive L → Emit σ Unit
  finish : Emit σ O

namespace Emitter

variable {σ L O : Type} [Emitter σ L O]

def fresh : Emit σ L := fun s =>
  let (label, s) := newLabel s
  (.ok label, s)

end Emitter

/-! Local slots of the initializer and of every routine with the dispatch signature. -/

namespace Slot

def self : Nat := 0
def token : Nat := 1
def receiver : Nat := 2
def arguments : Nat := 3

end Slot

end TokenDispatch
