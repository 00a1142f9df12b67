import TokenDispatch.Dispatcher
import TokenDispatch.Text.Quoted

/-!
Descriptions of host methods and dispatchers for diagnosis, with every name quoted.
-/

namespace TokenDispatch

def Prim.label : Prim → String
  | .boolean => "Boolean"
  | .byte => "Byte"
  | .char => "Char"
  | .short => "Short"
  | .int => "Int"
  | .long => "Long"
  | .float => "Float"
  | .double => "Double"

def Ty.description : Ty → String
  | .void => "Void"
  | .prim kind => "Primitive(" ++ kind.label ++ ")"
  | .named name => "Class(" ++ Text.quoted name ++ ")"
  | .array element => "Array(" ++ element.description ++ ")"

/-- A record with its named fields; `rest` says that it has others, which are not shown. -/
def describeRecord (name : String) (fields : List (String × String)) (rest : Bool) : String :=
  let shown := fields.map fun (field, value) => field ++ ": " ++ value
  name ++ " \x7b " ++ ", ".intercalate shown ++ (if rest then ", .. \x7d" else " \x7d")

def Signature.description (sig : Signature) : String :=
  describeRecord "MethodSig"
    [("params", "[" ++ ", ".intercalate (sig.params.map Ty.description) ++ "]"),
     ("ret", sig.ret.description)] false

def HostMethod.description (m : HostMethod) : String :=
  describeRecord "NativeMethod"
    [("owner", Text.quoted m.owner), ("name", Text.quoted m.name),
     ("sig", m.sig.description), ("is_static", if m.isStatic then "true" else "false")] false

def Dispatcher.description (d : Dispatcher) : String :=
  describeRecord "LoadedReflector"
    [("unit", Text.quoted d.unit.name), ("routines", toString d.unit.routines.size)] true

end TokenDispatch
