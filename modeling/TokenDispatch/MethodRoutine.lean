import TokenDispatch.Emitter
import TokenDispatch.Method

/-!
The routine of one method: it takes receiver and arguments out of the uniform convention, calls the
method with its declared types, and makes one reference of the result. Lengths and types are left to
the coercions; nothing is checked ahead of the call.
-/

namespace TokenDispatch

variable {σ L O : Type} [Emitter σ L O]

open Emitter

/-- Narrows the operand on top to a declared type. Nothing is emitted for the root class, to which
every reference conforms. -/
def emitNarrowing (target : Ty) : Emit σ Unit :=
  match target with
  | .prim kind => perform (.unbox kind)
  | .void => throw .narrowingToVoid
  | target => if target.isObject then pure () else perform (.checkCast target)

def routineName (stem : String) (position : Nat) : String := stem ++ toString position

/-- The positions that an int stands for are below this. -/
def indexLimit : Nat := 2147483648

/-- Element `position` of the argument array, as its declared type. -/
def emitElement (param : Ty) (position : Nat) : Emit σ Unit := do
  if indexLimit ≤ position then throw (.parameterIndex position)
  perform (.loadLocal Slot.arguments)
  perform (.pushInt (.ofNat position))
  perform .arrayLoad
  emitNarrowing param

def emitElements (params : List Ty) : Emit σ Unit :=
  params.zipIdx.forM fun (param, position) => emitElement param position

def CallShape.kind : CallShape → CallKind
  | .static => .static
  | .virtual => .virtual
  | .interface => .interface

/-- Receiver, arguments and the call itself. -/
def emitTargetCall (m : Method) : Emit σ Unit := do
  let some owner := m.target.className? | throw (.callTarget m.target.text)
  if m.shape ≠ .static then
    perform (.loadLocal Slot.receiver)
    emitNarrowing m.target
  emitElements m.params
  perform (.invoke m.shape.kind owner m.name m.signature)

/-- Leaves one reference: null for no result, a primitive in its box. -/
def emitReference (ret : Ty) : Emit σ Unit :=
  match ret with
  | .void => perform .pushNull
  | .prim kind => perform (.box kind)
  | .named _ | .array _ => pure ()

def emitMethodRoutine (name : String) (m : Method) : Emit σ Unit := do
  perform (.beginRoutine .internal name .dispatch)
  emitTargetCall m
  emitReference m.ret
  perform (.ret .reference)
  perform .endRoutine

end TokenDispatch
