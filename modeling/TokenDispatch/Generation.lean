import TokenDispatch.Entry
import TokenDispatch.MethodRoutine

/-!
Generation of a dispatcher: one unit for one list of methods, made of an initializer, the entry
point, and the routine of each method in the order of the list.
-/

namespace TokenDispatch

structure Options where
  form : SwitchForm := .lookup
  /-- What the names of method routines begin with; a position follows. -/
  stem : String := "m"
  /-- The contract that the unit extends. -/
  base : String := Contract.defaultName
deriving DecidableEq

namespace Options

def sparse : Options := {}

/-- A jump table whenever the tokens are dense. -/
def dense : Options := { form := .auto }

end Options

/-- What a pass over a list leaves: its result, the list with the tokens it now carries, and the
emitter. -/
@[ext]
structure Generation (σ O : Type) where
  result : Except EmitError (TokenIndex × O)
  methods : List Method
  emitter : σ

variable {σ L O : Type} [Emitter σ L O]

open Emitter

/-- The initializer does nothing but call that of the base. -/
def emitInitializer (base : String) : Emit σ Unit := do
  perform (.beginRoutine .exported RoutineName.initializer .initializer)
  perform (.loadLocal Slot.self)
  perform (.invoke .special base RoutineName.initializer .initializer)
  perform (.ret .void)
  perform .endRoutine

def emitOpening (options : Options) (unit : String) : Emit σ Unit := do
  perform (.beginUnit unit options.base)
  emitInitializer options.base

/-- The entry point, the routines it calls, and the end of the unit. -/
def emitRoutines (options : Options) (unit : String) (index : TokenIndex)
    (methods : List Method) : Emit σ O := do
  let names := (List.range methods.length).map (routineName options.stem)
  emitEntry unit index names options.form
  (names.zip methods).forM fun (name, m) => emitMethodRoutine name m
  finish

/-- Tokens are written once the unit is opened and before any method is looked at. -/
def generate (options : Options) (unit : String) (methods : List Method) (emitter : σ) :
    Generation σ O :=
  match emitOpening options unit emitter with
  | (.error e, emitter) => ⟨.error e, methods, emitter⟩
  | (.ok (), emitter) =>
      match numberMethods methods with
      | (.error e, methods) => ⟨.error e, methods, emitter⟩
      | (.ok index, methods) =>
          let (output, emitter) := emitRoutines options unit index methods emitter
          ⟨output.map (index, ·), methods, emitter⟩

end TokenDispatch
