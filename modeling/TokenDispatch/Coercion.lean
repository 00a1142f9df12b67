import TokenDispatch.Hierarchy

/-!
From an opaque value to a declared type. A primitive is taken out of its box: any boxed number gives
any numeric kind by truncation, a character or a truth value gives only itself. A reference is not
changed, only checked against the hierarchy.
-/

namespace TokenDispatch

/-- A number of any kind, widened without loss. -/
inductive Number where
  | integral (value : Int64)
  | floating (value : Binary64)

namespace Number

/-- The number as a kind of primitive. Integers wrap; a floating number is cut to an integer first,
and a kind of less than 32 bits wraps what the 32-bit integer holds. -/
def convert? : Number → Prim → Option Primitive
  | _, .boolean | _, .char => none
  | integral n, .byte => some (.byte n.toInt8)
  | integral n, .short => some (.short n.toInt16)
  | integral n, .int => some (.int n.toInt32)
  | integral n, .long => some (.long n)
  | integral n, .float => some (.float (.ofInt n.toInt))
  | integral n, .double => some (.double (.ofInt n.toInt))
  | floating x, .byte => some (.byte x.toInt32.toInt8)
  | floating x, .short => some (.short x.toInt32.toInt16)
  | floating x, .int => some (.int x.toInt32)
  | floating x, .long => some (.long x.toInt64)
  | floating x, .float => some (.float x.toBinary32)
  | floating x, .double => some (.double x)

end Number

namespace Primitive

def number? : Primitive → Option Number
  | byte n => some (.integral n.toInt64)
  | short n => some (.integral n.toInt64)
  | int n => some (.integral n.toInt64)
  | long n => some (.integral n)
  | float x => some (.floating x.toBinary64)
  | double x => some (.floating x)
  | boolean _ | char _ => none

def convert? : Primitive → Prim → Option Primitive
  | boolean b, .boolean => some (.boolean b)
  | char c, .char => some (.char c)
  | p, target => p.number?.bind (·.convert? target)

end Primitive

def Value.unbox (v : Value) (target : Prim) : Except Fault Primitive :=
  match v with
  | .null => .error (.unboxNull target)
  | v =>
      match v.boxed?.bind (·.convert? target) with
      | some p => .ok p
      | none => .error (.invalidCast v.className target.name)

namespace Hierarchy

def checkCast (h : Hierarchy) (v : Value) (target : Ty) : Except Fault Unit :=
  if !target.isReference then .error (.internal (.castTarget target))
  else if h.isInstance target v then .ok ()
  else .error (.invalidCast v.className target.text)

/-- What a declared type asks of a value: out of the box for a primitive, a cast for a reference.
A void type takes no value. -/
def coerce (h : Hierarchy) (v : Value) : Ty → Except Fault Operand
  | .prim kind => .prim <$> v.unbox kind
  | target => h.checkCast v target *> pure (.ref v)

end Hierarchy

/-- Element `index` of an argument array. -/
def Value.element (v : Value) (index : Int32) : Except Fault Value :=
  match v with
  | .null => .error .nullArguments
  | .array items =>
      match if 0 ≤ index.toInt then items[index.toInt.toNat]? else none with
      | some item => .ok item
      | none => .error (.indexOutOfBounds index items.length)
  | v => .error (.invalidCast v.className ClassName.objectArray)

end TokenDispatch
