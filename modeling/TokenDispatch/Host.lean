import TokenDispatch.Heap

/-!
Host methods: bodies that live outside generated code, known by owner, name and descriptor. A body
reads its arguments through `HostCall`, may change the heap, and may fail.
-/

namespace TokenDispatch

structure HostCall where
  receiver : Option Value
  args : List Operand

namespace HostCall

def arg (call : HostCall) (index : Nat) : Except Fault Operand :=
  match call.args[index]? with
  | some operand => .ok operand
  | none => .error (.indexOutOfBounds (.ofNat index) call.args.length)

def primitive (call : HostCall) (index : Nat) : Except Fault Primitive := do
  match (← call.arg index).primitive? with
  | some p => return p
  | none => throw (.host s!"argument {index} is not a primitive")

def int (call : HostCall) (index : Nat) : Except Fault Int32 := do
  match ← call.primitive index with
  | .int n => return n
  | p => throw (.host s!"argument {index} is {p.kind.name}, not int")

def long (call : HostCall) (index : Nat) : Except Fault Int64 := do
  match ← call.primitive index with
  | .long n => return n
  | p => throw (.host s!"argument {index} is {p.kind.name}, not long")

def value (call : HostCall) (index : Nat) : Except Fault Value := do
  match (← call.arg index).value? with
  | some v => return v
  | none => throw (.host s!"argument {index} is not a reference")

def asString (v : Value) : Except Fault String :=
  match v.string? with
  | some text => .ok text
  | none => .error (.invalidCast v.className ClassName.string)

def string (call : HostCall) (index : Nat) : Except Fault String := do
  asString (← call.value index)

def requireReceiver (call : HostCall) : Except Fault Value :=
  match call.receiver with
  | some v => .ok v
  | none => .error (.host "native method called without a receiver")

def receiverString (call : HostCall) : Except Fault String := do
  asString (← call.requireReceiver)

end HostCall

abbrev HostBody := HostCall → Heap → Except Fault Operand × Heap

structure HostMethod where
  owner : String
  name : String
  sig : Signature
  isStatic : Bool
  body : HostBody

namespace HostMethod

def answersTo (m : HostMethod) (owner name descriptor : String) : Bool :=
  m.owner == owner && m.name == name && m.sig.descriptor == descriptor

def qualifiedName (m : HostMethod) : String := m.owner ++ "." ++ m.name

/-- Why a body's answer is not one of the declared kind: a primitive type takes that very kind, any
other type takes a reference. -/
def mismatch? (m : HostMethod) (result : Operand) : Option Fault :=
  let fits := match result, m.sig.ret.prim? with
    | .prim p, some kind => p.kind == kind
    | .ref _, none => true
    | _, _ => false
  if fits then none
  else some (.returnMismatch m.qualifiedName m.sig.ret.text result.kindName)

end HostMethod

/-- At most one method for each owner, name and descriptor. -/
structure HostMethods where
  methods : List HostMethod := []

namespace HostMethods

/-- Adds a method in place of the one that answered to the same call. -/
def register (r : HostMethods) (m : HostMethod) : HostMethods :=
  ⟨m :: r.methods.filter fun old => !old.answersTo m.owner m.name m.sig.descriptor⟩

def find? (r : HostMethods) (owner name descriptor : String) : Option HostMethod :=
  r.methods.find? (·.answersTo owner name descriptor)

/-- An instance method declared on the very class `owner`. -/
def findInstance? (r : HostMethods) (owner name descriptor : String) : Option HostMethod :=
  (r.find? owner name descriptor).filter (!·.isStatic)

def size (r : HostMethods) : Nat := r.methods.length

end HostMethods

end TokenDispatch
