import TokenDispatch.Coercion
import TokenDispatch.World

/-!
Calls on host methods. Each kind of call first resolves its target by looking at names only; the
method found is then checked against the operands, run, and its answer checked against the
hierarchy. Nothing outside happens before the operands are accepted. A target is given here for
every hierarchy; a search that walks up a cycle of superclasses comes to one only if it finds a
method first, and `Environment.Concludes` says when it does.
-/

namespace TokenDispatch

namespace HostMethod

/-- Runs the body. A void method has no result, whatever its body answers. -/
def call (m : HostMethod) (receiver : Option Value) (args : List Operand) :
    Exec (Option Operand) := do
  let result ← World.outside (m.body ⟨receiver, args⟩) (.host m receiver args)
  if m.sig.returnsVoid then
    return none
  match m.mismatch? result with
  | some fault => throw fault
  | none => return some result

/-- Whether an operand is of the kind that a parameter of this type takes. -/
def accepts : Ty → Operand → Bool
  | .prim kind, .prim p => p.kind == kind
  | .named _, .ref _ | .array _, .ref _ => true
  | _, _ => false

/-- Generated code coerces each argument before a call, so operands of another number or kind show
that the code is wrong, not its data. -/
def checkArguments (m : HostMethod) (args : List Operand) : Except Fault Unit :=
  if args.length ≠ m.sig.params.length then
    .error (.internal (.argumentCount m.owner m.name m.sig.params.length args.length))
  else
    match (args.zip m.sig.params).zipIdx.find? fun ((arg, param), _) => !accepts param arg with
    | some ((arg, param), position) =>
        .error (.internal (.argumentKind position m.owner m.name param arg.kindName))
    | none => .ok ()

end HostMethod

/-- The classes that exist and the host methods defined on them. -/
structure Environment where
  hierarchy : Hierarchy := .builtin
  methods : HostMethods := {}

namespace Environment

def findStatic? (env : Environment) (owner name descriptor : String) : Option HostMethod :=
  (env.hierarchy.chain owner).findSome? fun className =>
    env.methods.find? className name descriptor

def findOnChain? (env : Environment) (owner name descriptor : String) : Option HostMethod :=
  (env.hierarchy.chain owner).findSome? fun className =>
    env.methods.findInstance? className name descriptor

/-- The nearest interface above `start` that declares the method, `start` included. -/
def findInInterfaces? (env : Environment) (start name descriptor : String) : Option HostMethod :=
  (env.hierarchy.reachable start).findSome? fun className =>
    if env.hierarchy.isInterface className then
      env.methods.findInstance? className name descriptor
    else none

def resolveStatic (env : Environment) (owner name descriptor : String) :
    Except Fault HostMethod :=
  match env.findStatic? owner name descriptor with
  | none => .error (.noSuchMethodError owner name descriptor)
  | some m => if m.isStatic then .ok m else .error (.notStatic owner name descriptor)

def receiverClass (owner name : String) (receiver : Value) : Except Fault String :=
  match receiver.class? with
  | some className => .ok className
  | none => .error (.nullReceiver owner name)

/-- What the receiver's own class makes of a method that was declared for it. -/
def select (env : Environment) (className name descriptor : String) (declared : HostMethod) :
    HostMethod :=
  (env.findOnChain? className name descriptor).getD declared

/-- A method must be declared on the owner's chain, or else on an interface above it. -/
def resolveVirtual (env : Environment) (owner name descriptor : String) (receiver : Value) :
    Except Fault HostMethod := do
  let className ← receiverClass owner name receiver
  match (env.findOnChain? owner name descriptor).or
      (env.findInInterfaces? owner name descriptor) with
  | none => throw (.noSuchMethodError owner name descriptor)
  | some declared => return env.select className name descriptor declared

def resolveInterface (env : Environment) (owner name descriptor : String) (receiver : Value) :
    Except Fault HostMethod := do
  let className ← receiverClass owner name receiver
  if !env.hierarchy.isSubtype className owner then
    throw (.notImplemented className owner)
  match env.findInInterfaces? owner name descriptor with
  | none => throw (.noSuchMethodError owner name descriptor)
  | some declared => return env.select className name descriptor declared

/-- Runs a method that a call resolved to, once its operands are accepted. -/
def call (env : Environment) (m : HostMethod) (receiver : Option Value) (args : List Operand) :
    Exec (Option Operand) := do
  m.checkArguments args
  match ← m.call receiver args with
  | some (.ref v) =>
      if env.hierarchy.isInstance m.sig.ret v then return some (.ref v)
      else throw (.returnMismatch m.qualifiedName m.sig.ret.text v.className)
  | result => return result

def invokeStatic (env : Environment) (owner name : String) (sig : Signature)
    (args : List Operand) : Exec (Option Operand) := do
  env.call (← env.resolveStatic owner name sig.descriptor) none args

def invokeVirtual (env : Environment) (owner name : String) (sig : Signature) (receiver : Value)
    (args : List Operand) : Exec (Option Operand) := do
  env.call (← env.resolveVirtual owner name sig.descriptor receiver) (some receiver) args

def invokeInterface (env : Environment) (owner name : String) (sig : Signature) (receiver : Value)
    (args : List Operand) : Exec (Option Operand) := do
  env.call (← env.resolveInterface owner name sig.descriptor receiver) (some receiver) args

end Environment

end TokenDispatch
