/-!
Declared types as generated code sees them: primitives, classes by name, arrays, and the mark for
"no value". A signature has a compact descriptor, and methods are found by that text, so two
signatures with one descriptor count as one.
-/

namespace TokenDispatch

inductive Prim where
  | boolean
  | byte
  | char
  | short
  | int
  | long
  | float
  | double
deriving DecidableEq

/-! Names of the classes every hierarchy starts with. -/

namespace ClassName

def object : String := "Object"
def number : String := "Number"
def string : String := "String"
def charSequence : String := "CharSequence"
def comparable : String := "Comparable"

/-- The class of every array value, whatever its elements. -/
def objectArray : String := "Object[]"

end ClassName

namespace Prim

def all : List Prim := [boolean, byte, char, short, int, long, float, double]

def name : Prim → String
  | boolean => "boolean"
  | byte => "byte"
  | char => "char"
  | short => "short"
  | int => "int"
  | long => "long"
  | float => "float"
  | double => "double"

def code : Prim → Char
  | boolean => 'Z'
  | byte => 'B'
  | char => 'C'
  | short => 'S'
  | int => 'I'
  | long => 'J'
  | float => 'F'
  | double => 'D'

/-- The class whose instances hold this primitive in boxed form. -/
def wrapper : Prim → String
  | boolean => "Boolean"
  | byte => "Byte"
  | char => "Character"
  | short => "Short"
  | int => "Integer"
  | long => "Long"
  | float => "Float"
  | double => "Double"

def isNumeric : Prim → Bool
  | boolean | char => false
  | _ => true

end Prim

inductive Ty where
  | void
  | prim (kind : Prim)
  | named (name : String)
  | array (element : Ty)
deriving DecidableEq, Inhabited

namespace Ty

def object : Ty := named ClassName.object

def objectArray : Ty := array object

def isVoid : Ty → Bool
  | void => true
  | _ => false

def isReference : Ty → Bool
  | named _ | array _ => true
  | _ => false

def isObject (ty : Ty) : Bool := ty == object

def prim? : Ty → Option Prim
  | prim kind => some kind
  | _ => none

def className? : Ty → Option String
  | named name => some name
  | _ => none

def text : Ty → String
  | void => "void"
  | prim kind => kind.name
  | named name => name
  | array element => element.text ++ "[]"

def descriptor : Ty → String
  | void => "V"
  | prim kind => kind.code.toString
  | named name => "L" ++ name ++ ";"
  | array element => "[" ++ element.descriptor

end Ty

structure Signature where
  params : List Ty
  ret : Ty
deriving DecidableEq

namespace Signature

def descriptor (sig : Signature) : String :=
  "(" ++ String.join (sig.params.map Ty.descriptor) ++ ")" ++ sig.ret.descriptor

def text (sig : Signature) : String :=
  "(" ++ ", ".intercalate (sig.params.map Ty.text) ++ ") -> " ++ sig.ret.text

def returnsVoid (sig : Signature) : Bool := sig.ret.isVoid

/-- What an initializer looks like: nothing in, nothing out. -/
def initializer : Signature := ⟨[], .void⟩

/-- Token, receiver and argument array in, a reference out: the shape shared by the entry point,
the routine of every method and the fallback. -/
def dispatch : Signature := ⟨[.prim .int, .object, .objectArray], .object⟩

end Signature

end TokenDispatch
