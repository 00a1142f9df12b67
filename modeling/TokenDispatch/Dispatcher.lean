import TokenDispatch.Generation
import TokenDispatch.Assembler
import TokenDispatch.Machine

/-!
Dispatchers: units that are linked to a contract and an environment, and whose initializer has run.
A unit is linked as a whole before any of its code runs, so a unit that does not link has no effect.
-/

namespace TokenDispatch

inductive LoadError where
  | emission (e : EmitError)
  | baseMismatch (unit expected found : String)
  | missingRoutine (unit name descriptor : String)
  /-- A call on the unit or its base that names nothing either provides. -/
  | unresolvedCall (routine owner name descriptor : String)
  | initializer (fault : Fault)
deriving DecidableEq

def LoadError.message : LoadError → String
  | emission e => e.message
  | baseMismatch unit expected found =>
      s!"unit {unit} extends {found}, but the base contract is {expected}"
  | missingRoutine unit name descriptor => s!"unit {unit} has no public routine {name}{descriptor}"
  | unresolvedCall routine owner name descriptor =>
      s!"{routine} calls {owner}.{name}{descriptor}, which is not defined"
  | initializer fault => "initializer failed: " ++ fault.message

structure Dispatcher extends Program where
  /-- The object that stands for the dispatcher in its own routines. -/
  self : Value
  entry : Routine

namespace Program

def required (p : Program) (name : String) (sig : Signature) : Except LoadError Routine :=
  match p.unit.exported? name sig with
  | some r => .ok r
  | none => .error (.missingRoutine p.unit.name name sig.descriptor)

/-- The initializer and the entry point of a unit that fits its base and whose own calls all lead
somewhere. -/
def linked (p : Program) : Except LoadError (Routine × Routine) := do
  if p.unit.base ≠ p.contract.name then
    throw (.baseMismatch p.unit.name p.contract.name p.unit.base)
  let init ← p.required RoutineName.initializer .initializer
  let entry ← p.required RoutineName.entry .dispatch
  match p.unit.unresolved? with
  | some (r, site) => throw (.unresolvedCall r.name site.owner site.name site.descriptor)
  | none => return (init, entry)

end Program

namespace Dispatcher

def load (steps : Nat) (p : Program) (w : World) : Outcome LoadError Dispatcher × World :=
  match p.linked with
  | .error e => (.failed e, w)
  | .ok (init, entry) =>
      let (self, heap) := w.heap.alloc p.unit.name
      match p.runRoutine steps init [.ref self] { w with heap := heap } with
      | (.done _, w) => (.done { toProgram := p, self := self, entry := entry }, w)
      | (.failed fault, w) => (.failed (.initializer fault), w)
      | (.exhausted, w) => (.exhausted, w)

/-- Generates a unit for a list of methods and loads it. The list comes back with its tokens,
whatever becomes of the unit. -/
def compile (steps : Nat) (options : Options) (unit : String) (methods : List Method)
    (env : Environment) (contract : Contract) (w : World) :
    List Method × Outcome LoadError Dispatcher × World :=
  let generation := generate options unit methods ({} : Assembler)
  (generation.methods,
    match generation.result with
    | .error e => (.failed (.emission e), w)
    | .ok (_, unit) => load steps ⟨unit, env, contract⟩ w)

def invoke (d : Dispatcher) (steps : Nat) (token : Int32) (receiver arguments : Value)
    (w : World) : Outcome Fault Value × World :=
  match d.runRoutine steps d.entry [.ref d.self, .int token, .ref receiver, .ref arguments] w with
  | (.done (some (.ref v)), w) => (.done v, w)
  | (.done _, w) => (.failed (.internal .entryWithoutResult), w)
  | (.failed fault, w) => (.failed fault, w)
  | (.exhausted, w) => (.exhausted, w)

/-- Invokes a method by the key of its token, `0` when it carries none. -/
def invokeMethod (d : Dispatcher) (steps : Nat) (m : Method) (receiver arguments : Value)
    (w : World) : Outcome Fault Value × World :=
  d.invoke steps m.key receiver arguments w

end Dispatcher

end TokenDispatch
