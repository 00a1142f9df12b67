import TokenDispatch.Decimal
import TokenDispatch.Fault

/-!
Values that pass through the uniform calling convention. A reference is null, a boxed primitive, a
string, an array or an object; an operand is a reference or a bare primitive. Objects carry their
class with them, and their fields live in the heap.
-/

namespace TokenDispatch

inductive Primitive where
  | boolean (value : Bool)
  | byte (value : Int8)
  | char (value : Char)
  | short (value : Int16)
  | int (value : Int32)
  | long (value : Int64)
  | float (value : Binary32)
  | double (value : Binary64)
deriving DecidableEq

namespace Primitive

def kind : Primitive → Prim
  | boolean _ => .boolean
  | byte _ => .byte
  | char _ => .char
  | short _ => .short
  | int _ => .int
  | long _ => .long
  | float _ => .float
  | double _ => .double

/-- Equality as the values themselves have it: a NaN is not equal to itself. -/
def same : Primitive → Primitive → Bool
  | boolean x, boolean y => x == y
  | byte x, byte y => x == y
  | char x, char y => x == y
  | short x, short y => x == y
  | int x, int y => x == y
  | long x, long y => x == y
  | float x, float y => x.numEq y
  | double x, double y => x.numEq y
  | _, _ => false

def text : Primitive → String
  | boolean value => if value then "true" else "false"
  | byte value => toString value.toInt
  | char value => value.toString
  | short value => toString value.toInt
  | int value => toString value.toInt
  | long value => toString value.toInt
  | float value => value.text
  | double value => value.text

end Primitive

inductive Value where
  | null
  | boxed (primitive : Primitive)
  | string (text : String)
  | array (items : List Value)
  | object (id : Nat) (className : String)

namespace Value

def isNull : Value → Bool
  | null => true
  | _ => false

/-- The class a value is an instance of; null is an instance of none. -/
def class? : Value → Option String
  | null => none
  | boxed primitive => some primitive.kind.wrapper
  | string _ => some ClassName.string
  | array _ => some ClassName.objectArray
  | object _ className => some className

def className (v : Value) : String := v.class?.getD "null"

def string? : Value → Option String
  | string text => some text
  | _ => none

def array? : Value → Option (List Value)
  | array items => some items
  | _ => none

def boxed? : Value → Option Primitive
  | boxed primitive => some primitive
  | _ => none

def isObject : Value → Bool
  | object _ _ => true
  | _ => false

mutual

/-- Equality of values; objects are equal when they are the same object. -/
def same : Value → Value → Bool
  | null, null => true
  | boxed x, boxed y => x.same y
  | string x, string y => x == y
  | array xs, array ys => sameItems xs ys
  | object x _, object y _ => x == y
  | _, _ => false

def sameItems : List Value → List Value → Bool
  | [], [] => true
  | x :: xs, y :: ys => same x y && sameItems xs ys
  | _, _ => false

end

mutual

/-- The text of a value; an object, which has none of its own, shows its class and number. -/
def text : Value → String
  | null => "null"
  | boxed primitive => primitive.text
  | string s => s
  | array items => "[" ++ ", ".intercalate (itemTexts items) ++ "]"
  | object id className => className ++ "@" ++ toString id

def itemTexts : List Value → List String
  | [] => []
  | item :: items => item.text :: itemTexts items

end

end Value

inductive Operand where
  | prim (value : Primitive)
  | ref (value : Value)

namespace Operand

def int (n : Int32) : Operand := prim (.int n)

def null : Operand := ref .null

def primitive? : Operand → Option Primitive
  | prim value => some value
  | ref _ => none

def value? : Operand → Option Value
  | ref value => some value
  | prim _ => none

def int? : Operand → Option Int32
  | prim (.int n) => some n
  | _ => none

/-- What messages call the operand: its primitive kind, or the class of its value. -/
def kindName : Operand → String
  | prim value => value.kind.name
  | ref value => value.className

/-- The operand as a value, a primitive in its box. -/
def toValue : Operand → Value
  | prim value => .boxed value
  | ref value => value

end Operand

end TokenDispatch
