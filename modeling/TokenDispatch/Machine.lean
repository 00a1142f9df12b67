import TokenDispatch.Invocation
import TokenDispatch.Linkage

/-!
The machine that runs stack code, one instruction at a time. A configuration is the frame that runs
and the frames that wait for it; calls that leave the unit happen within one step. A run that is
given too few steps says so, and does not fault.
-/

namespace TokenDispatch

structure Frame where
  routine : Routine
  /-- The position of the instruction that comes next. -/
  position : Nat := 0
  locals : List Operand
  /-- The operands, the one pushed last in front. -/
  stack : List Operand := []

namespace Frame

def push (f : Frame) (operand : Operand) : Frame := { f with stack := operand :: f.stack }

def pop (f : Frame) : Except Fault (Operand × Frame) :=
  match f.stack with
  | operand :: rest => .ok (operand, { f with stack := rest })
  | [] => .error (.internal (.stackUnderflow f.routine.name))

def popReference (f : Frame) : Except Fault (Value × Frame) := do
  match ← f.pop with
  | (.ref v, f) => return (v, f)
  | (.prim p, f) => throw (.internal (.notReference f.routine.name p.kind))

def popPrimitive (f : Frame) : Except Fault (Primitive × Frame) := do
  match ← f.pop with
  | (.prim p, f) => return (p, f)
  | (.ref v, f) => throw (.internal (.notPrimitive f.routine.name v.className))

def popInt (f : Frame) : Except Fault (Int32 × Frame) := do
  match ← f.popPrimitive with
  | (.int n, f) => return (n, f)
  | (p, f) => throw (.internal (.notInt f.routine.name p.kind))

/-- The arguments of a call, the first in front. -/
def popArguments (f : Frame) (site : CallSite) : Except Fault (List Operand × Frame) :=
  let count := site.sig.params.length
  if f.stack.length < count then
    .error (.internal (.missingArguments f.routine.name site.name count))
  else
    .ok ((f.stack.take count).reverse, { f with stack := f.stack.drop count })

def popReceiver (f : Frame) (site : CallSite) : Except Fault (Option Value × Frame) := do
  if site.kind.hasReceiver then
    let (receiver, f) ← f.popReference
    return (some receiver, f)
  else
    return (none, f)

/-- What the caller makes of the result of a call. -/
def receive (f : Frame) (site : CallSite) (result : Option Operand) : Except Fault Frame :=
  if site.sig.returnsVoid then .ok f
  else
    match result with
    | some operand => .ok (f.push operand)
    | none => .error (.internal (.noResult site.owner site.name))

/-- An instruction that neither calls nor returns. The frame already points past it. A lookup takes
the first case with the key; a search by halves finds the same one where the keys ascend, as they do
in every routine that is assembled (`Draft.Routes.ascending`). -/
def exec (h : Hierarchy) (f : Frame) : Instr Nat → Except Fault Frame
  | .loadLocal slot =>
      match f.locals[slot]? with
      | some operand => .ok (f.push operand)
      | none => .error (.internal (.noLocal f.routine.name slot))
  | .pushInt n => .ok (f.push (.int n))
  | .pushNull => .ok (f.push .null)
  | .arrayLoad => do
      let (index, f) ← f.popInt
      let (items, f) ← f.popReference
      return f.push (.ref (← items.element index))
  | .unbox kind => do
      let (v, f) ← f.popReference
      return f.push (.prim (← v.unbox kind))
  | .checkCast target => do
      let (v, f) ← f.popReference
      h.checkCast v target
      return f.push (.ref v)
  | .box kind => do
      let (p, f) ← f.popPrimitive
      if p.kind = kind then return f.push (.ref (.boxed p))
      else throw (.internal (.boxedKind f.routine.name kind p.kind))
  | .lookupSwitch default cases => do
      let (key, f) ← f.popInt
      return { f with position := ((cases.find? (·.1 == key)).map (·.2)).getD default }
  | .tableSwitch low default targets => do
      let (key, f) ← f.popInt
      let distance := key.toInt - low.toInt
      let target? := if 0 ≤ distance then targets[distance.toNat]? else none
      return { f with position := target?.getD default }
  | .call _ | .ret | .retVoid => .ok f

end Frame

/-- A frame that waits for the call it made. -/
structure Caller where
  frame : Frame
  site : CallSite

structure Config where
  frame : Frame
  callers : List Caller := []

inductive Step where
  | next (c : Config)
  | returned (result : Option Operand)
  | failed (fault : Fault)

/-- All that a step depends on besides the configuration and the world. -/
structure Program where
  unit : CodeUnit
  env : Environment
  contract : Contract

namespace Config

def resume (frame : Except Fault Frame) (callers : List Caller) : Step :=
  match frame with
  | .ok frame => .next ⟨frame, callers⟩
  | .error fault => .failed fault

/-- Hands a result to the frame that waits for it. -/
def giveBack (callers : List Caller) (result : Option Operand) : Step :=
  match callers with
  | [] => .returned result
  | caller :: callers => resume (caller.frame.receive caller.site result) callers

end Config

namespace Program

/-- The fallback of the base takes an int and two references. -/
def callFallback (p : Program) (args : List Operand) : Exec (Option Operand) := do
  let some token := args[0]?.bind Operand.int? | throw (.internal .fallbackToken)
  let some receiver := args[1]?.bind Operand.value? | throw (.internal (.fallbackOperand 1))
  let some arguments := args[2]?.bind Operand.value? | throw (.internal (.fallbackOperand 2))
  return some (.ref (← p.contract.runFallback token receiver arguments))

/-- A call that is not linked is answered by the environment, by its kind. -/
def callOutside (p : Program) (site : CallSite) (receiver : Option Value) (args : List Operand) :
    Exec (Option Operand) :=
  match site.kind, receiver with
  | .static, _ => p.env.invokeStatic site.owner site.name site.sig args
  | .virtual, some receiver => p.env.invokeVirtual site.owner site.name site.sig receiver args
  | .interface, some receiver =>
      p.env.invokeInterface site.owner site.name site.sig receiver args
  | _, _ => throw (.internal (.unlinked site.kind site.owner site.name))

/-- Finishes a call within the step. -/
def answer (action : Exec (Option Operand)) (f : Frame) (site : CallSite) (callers : List Caller)
    (w : World) : Step × World :=
  match action w with
  | (.ok result, w) => (Config.resume (f.receive site result) callers, w)
  | (.error fault, w) => (.failed fault, w)

/-- Calls a target with operands that are off the stack of the caller already. -/
def enter (p : Program) (site : CallSite) (receiver : Option Value) (args : List Operand)
    (f : Frame) (callers : List Caller) (w : World) : Step × World :=
  match p.unit.link? site with
  | some (.routine r) =>
      match receiver with
      | some receiver =>
          (.next ⟨{ routine := r, locals := .ref receiver :: args }, ⟨f, site⟩ :: callers⟩, w)
      | none => (.failed (.internal .noReceiver), w)
  | some .initializer => answer (p.contract.runInit *> pure none) f site callers w
  | some .fallback => answer (p.callFallback args) f site callers w
  | none => answer (p.callOutside site receiver args) f site callers w

def call (p : Program) (site : CallSite) (f : Frame) (callers : List Caller) (w : World) :
    Step × World :=
  match f.popArguments site with
  | .error fault => (.failed fault, w)
  | .ok (args, f) =>
      match f.popReceiver site with
      | .error fault => (.failed fault, w)
      | .ok (receiver, f) => p.enter site receiver args f callers w

def step (p : Program) (c : Config) (w : World) : Step × World :=
  match c.frame.routine.code[c.frame.position]? with
  | none => (.failed (.internal (.endOfRoutine c.frame.routine.name)), w)
  | some i =>
      let frame := { c.frame with position := c.frame.position + 1 }
      match i with
      | .ret =>
          match frame.popReference with
          | .ok (v, _) => (Config.giveBack c.callers (some (.ref v)), w)
          | .error fault => (.failed fault, w)
      | .retVoid => (Config.giveBack c.callers none, w)
      | .call site => p.call site frame c.callers w
      | i => (Config.resume (frame.exec p.env.hierarchy i) c.callers, w)

end Program

/-- How a run ends: with a result, with an error, or for want of steps. -/
inductive Outcome (ε α : Type) where
  | done (result : α)
  | failed (error : ε)
  | exhausted

namespace Program

def run (p : Program) : Nat → Config → World → Outcome Fault (Option Operand) × World
  | 0, _, w => (.exhausted, w)
  | steps + 1, c, w =>
      match p.step c w with
      | (.next c, w) => p.run steps c w
      | (.returned result, w) => (.done result, w)
      | (.failed fault, w) => (.failed fault, w)

def runRoutine (p : Program) (steps : Nat) (r : Routine) (locals : List Operand) (w : World) :
    Outcome Fault (Option Operand) × World :=
  p.run steps ⟨{ routine := r, locals := locals }, []⟩ w

end Program

end TokenDispatch
