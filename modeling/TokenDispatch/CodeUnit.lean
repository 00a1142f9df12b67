import TokenDispatch.CallSite

/-!
Stack code and the units it is kept in. An instruction is written over the type of its branch
targets: labels while a routine is open, positions in the code once it is finished.
-/

namespace TokenDispatch

inductive Instr (τ : Type) where
  | loadLocal (slot : Nat)
  | pushInt (value : Int32)
  | pushNull
  | arrayLoad
  | unbox (kind : Prim)
  | checkCast (target : Ty)
  | call (site : CallSite)
  | box (kind : Prim)
  | ret
  | retVoid
  | lookupSwitch (default : τ) (cases : List (Int32 × τ))
  | tableSwitch (low : Int32) (default : τ) (targets : List τ)
deriving DecidableEq

namespace Instr

variable {τ ρ : Type}

/-- How many operands an instruction takes. -/
def pops : Instr τ → Nat
  | loadLocal _ | pushInt _ | pushNull | retVoid => 0
  | arrayLoad => 2
  | unbox _ | checkCast _ | box _ | ret => 1
  | lookupSwitch .. | tableSwitch .. => 1
  | call site => site.operands

/-- How many operands an instruction leaves behind. -/
def pushes : Instr τ → Nat
  | loadLocal _ | pushInt _ | pushNull | arrayLoad | unbox _ | checkCast _ | box _ => 1
  | ret | retVoid | lookupSwitch .. | tableSwitch .. => 0
  | call site => if site.sig.returnsVoid then 0 else 1

/-- The branch targets, the default first. -/
def targets : Instr τ → List τ
  | lookupSwitch default cases => default :: cases.map (·.2)
  | tableSwitch _ default targets => default :: targets
  | _ => []

/-- Whether the code after an instruction is reached by branches only. -/
def endsBlock : Instr τ → Bool
  | ret | retVoid | lookupSwitch .. | tableSwitch .. => true
  | _ => false

/-- Replaces the branch targets in order; the first that cannot be replaced is the error. -/
def mapTargets {ε : Type} (f : τ → Except ε ρ) : Instr τ → Except ε (Instr ρ)
  | lookupSwitch default cases => do
      let default ← f default
      return lookupSwitch default (← cases.mapM fun (key, target) => return (key, ← f target))
  | tableSwitch low default targets => do
      let default ← f default
      return tableSwitch low default (← targets.mapM f)
  | loadLocal slot => return loadLocal slot
  | pushInt value => return pushInt value
  | pushNull => return pushNull
  | arrayLoad => return arrayLoad
  | unbox kind => return unbox kind
  | checkCast target => return checkCast target
  | call site => return call site
  | box kind => return box kind
  | ret => return ret
  | retVoid => return retVoid

def text : Instr Nat → String
  | loadLocal slot => s!"load {slot}"
  | pushInt value => s!"iconst {value.toInt}"
  | pushNull => "aconst_null"
  | arrayLoad => "aaload"
  | unbox kind => "unbox " ++ kind.name
  | checkCast target => "checkcast " ++ target.text
  | call site => site.text
  | box kind => "box " ++ kind.name
  | ret => "areturn"
  | retVoid => "return"
  | lookupSwitch default cases =>
      let shown := cases.map fun (key, target) => s!"{key.toInt}: @{target}"
      s!"lookupswitch default=@{default} " ++ "\x7b" ++ ", ".intercalate shown ++ "\x7d"
  | tableSwitch low default targets =>
      let shown := targets.map fun target => s!"@{target}"
      s!"tableswitch low={low.toInt} default=@{default} [" ++ ", ".intercalate shown ++ "]"

end Instr

structure Routine where
  access : Access
  name : String
  sig : Signature
  descriptor : String
  code : Array (Instr Nat)
  maxStack : Nat
  maxLocals : Nat
deriving DecidableEq

namespace Routine

/-- The keys of the first switch that lead elsewhere than to its default, and that default. In a
lookup every key counts, in a table only the slots that differ from the default. -/
def switchArms? (r : Routine) : Option (List Int32 × Nat) :=
  r.code.findSome? fun
    | .lookupSwitch default cases => some (cases.map (·.1), default)
    | .tableSwitch low default targets =>
        let taken := targets.zipIdx.filter (·.1 != default)
        some (taken.map fun (_, offset) => low + .ofNat offset, default)
    | _ => none

def answersTo (r : Routine) (name descriptor : String) : Bool :=
  r.name == name && r.descriptor == descriptor

end Routine

structure CodeUnit where
  name : String
  base : String
  routines : Array Routine
deriving DecidableEq

namespace CodeUnit

def named? (u : CodeUnit) (name : String) : Option Routine := u.routines.find? (·.name == name)

def find? (u : CodeUnit) (name descriptor : String) : Option Routine :=
  u.routines.find? (·.answersTo name descriptor)

def index? (u : CodeUnit) (name descriptor : String) : Option Nat :=
  u.routines.findIdx? (·.answersTo name descriptor)

end CodeUnit

end TokenDispatch
