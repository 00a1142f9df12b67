import TokenDispatch.CallSite

/-!
Faults: the ways in which a call ends without a result. Nothing catches them, so a fault leaves the
dispatcher as it was raised. A `Defect` is a fault of the code that runs, not of the values in it.
-/

namespace TokenDispatch

inductive Defect where
  /-- Reported by a host method or a base, in its own words. -/
  | reported (message : String)
  | castTarget (target : Ty)
  | argumentCount (owner name : String) (expected found : Nat)
  | argumentKind (position : Nat) (owner name : String) (expected : Ty) (found : String)
  | endOfRoutine (routine : String)
  | noLocal (routine : String) (slot : Nat)
  | stackUnderflow (routine : String)
  | notReference (routine : String) (found : Prim)
  | notPrimitive (routine found : String)
  | notInt (routine : String) (found : Prim)
  | boxedKind (routine : String) (expected found : Prim)
  | missingArguments (routine callee : String) (count : Nat)
  | noReceiver
  | noResult (owner name : String)
  | unlinked (kind : CallKind) (owner name : String)
  | fallbackToken
  | fallbackOperand (position : Nat)
  | entryWithoutResult
deriving DecidableEq

namespace Defect

def message : Defect → String
  | reported message => message
  | castTarget target => "reference cast to non-reference type " ++ target.text
  | argumentCount owner name expected found =>
      s!"{owner}.{name} takes {expected} argument(s), got {found}"
  | argumentKind position owner name expected found =>
      s!"argument {position} of {owner}.{name}: expected {expected.text}, found {found}"
  | endOfRoutine routine => s!"{routine} runs past its last instruction"
  | noLocal routine slot => s!"{routine}: no local {slot}"
  | stackUnderflow routine => s!"{routine}: operand stack underflow"
  | notReference routine found => s!"{routine}: expected a reference, found {found.name}"
  | notPrimitive routine found => s!"{routine}: expected a primitive, found {found}"
  | notInt routine found => s!"{routine}: expected int, found {found.name}"
  | boxedKind routine expected found =>
      s!"{routine}: box {expected.name} applied to {found.name}"
  | missingArguments routine callee count => s!"{routine}: {callee} needs {count} argument(s)"
  | noReceiver => "routine call without a receiver"
  | noResult owner name => s!"{owner}.{name} returned nothing"
  | unlinked kind owner name => s!"unlinked {kind.mnemonic} {owner}.{name}"
  | fallbackToken => "noSuchMethod without an int token"
  | fallbackOperand position => s!"noSuchMethod argument {position} is not a reference"
  | entryWithoutResult => "invoke produced None instead of a reference"

end Defect

inductive Fault where
  | indexOutOfBounds (index : Int32) (length : Nat)
  | invalidCast (source target : String)
  | nullPointer (context : String)
  /-- No method satisfies a call target. -/
  | noSuchMethodError (owner name descriptor : String)
  | incompatibleClassChange (message : String)
  /-- No branch of a dispatcher takes a token. -/
  | noSuchMethod (token : Int32) (receiverClass : String)
  | returnMismatch (method expected found : String)
  | host (message : String)
  | internal (defect : Defect)
deriving DecidableEq

namespace Fault

def message : Fault → String
  | indexOutOfBounds index length => s!"index {index.toInt} out of bounds for length {length}"
  | invalidCast source target => s!"cannot cast {source} to {target}"
  | nullPointer context => "null pointer: " ++ context
  | noSuchMethodError owner name descriptor => s!"no such method: {owner}.{name}{descriptor}"
  | incompatibleClassChange message => "incompatible class change: " ++ message
  | noSuchMethod token receiverClass =>
      s!"no method for dispatch token {token.toInt} on receiver of class {receiverClass}"
  | returnMismatch method expected found =>
      s!"{method} declared to return {expected}, but returned {found}"
  | host message => message
  | internal defect => "internal fault: " ++ defect.message

/-! The contexts in which a null, or a method of the wrong kind, is met. -/

def unboxNull (target : Prim) : Fault := nullPointer ("cannot unbox null to " ++ target.name)

def nullReceiver (owner name : String) : Fault :=
  nullPointer s!"cannot invoke {owner}.{name} on null"

def nullArguments : Fault := nullPointer "cannot load from a null argument array"

def notStatic (owner name descriptor : String) : Fault :=
  incompatibleClassChange s!"expected static method {owner}.{name}{descriptor}"

def notImplemented (className interface : String) : Fault :=
  incompatibleClassChange s!"class {className} does not implement interface {interface}"

end Fault

end TokenDispatch
