import TokenDispatch.CodeUnit
import TokenDispatch.Emitter

/-!
The emitter that writes stack code. It follows the operand depth while a routine is open, so each
routine knows the frame it needs, and when the routine ends it puts positions in place of labels.
What a failing call had already changed stays changed, except that a routine whose end fails is
dropped.
-/

namespace TokenDispatch

/-- A label of the open routine, numbered in the order of creation. -/
structure Label where
  id : Nat
deriving DecidableEq

namespace Label

/-- What a label made outside of every routine is; no routine has that many. -/
def nowhere : Label := ⟨4294967295⟩

end Label

structure OpenRoutine where
  access : Access
  name : String
  sig : Signature
  maxLocals : Nat
  code : Array (Instr Label) := #[]
  /-- For each label, the position it is bound to. -/
  placed : Array (Option Nat) := #[]
  /-- For each label, the operand depth that branches bring to it. -/
  entryDepth : Array (Option Nat) := #[]
  depth : Nat := 0
  maxStack : Nat := 0
  /-- False from an instruction that ends a block to the next label. -/
  reachable : Bool := true

/-- The greatest operand depth, and the greatest number of locals. -/
def frameLimit : Nat := 65535

namespace OpenRoutine

def start (access : Access) (name : String) (sig : Signature) : OpenRoutine where
  access := access
  name := name
  sig := sig
  maxLocals := min frameLimit (sig.params.length + 1)

/-- Where the routine stands, for messages. -/
def place (r : OpenRoutine) : String := s!"{r.name} at op {r.code.size}"

def newLabel (r : OpenRoutine) : Label × OpenRoutine :=
  (⟨r.placed.size⟩,
   { r with placed := r.placed.push none, entryDepth := r.entryDepth.push none })

def resolve (r : OpenRoutine) (label : Label) : Except EmitError Nat :=
  match r.placed[label.id]?.join with
  | some position => .ok position
  | none => .error (.unplacedLabel label.id r.name)

def finish (r : OpenRoutine) : Except EmitError Routine := do
  if r.reachable then throw (.fallsOffEnd r.name)
  return {
    access := r.access
    name := r.name
    sig := r.sig
    descriptor := r.sig.descriptor
    code := ← r.code.mapM (·.mapTargets r.resolve)
    maxStack := r.maxStack
    maxLocals := r.maxLocals }

end OpenRoutine

abbrev Edit := ExceptT EmitError (StateM OpenRoutine)

namespace Edit

def pop (count : Nat) : Edit Unit := fun r =>
  if !r.reachable then (.error (.unreachable r.place), r)
  else if r.depth < count then (.error (.stackUnderflow r.place), r)
  else (.ok (), { r with depth := r.depth - count })

def push (count : Nat) : Edit Unit := fun r =>
  if !r.reachable then (.error (.unreachable r.place), r)
  else if frameLimit < r.depth + count then (.error (.stackOverflow r.place), r)
  else
    (.ok (), { r with depth := r.depth + count, maxStack := max r.maxStack (r.depth + count) })

def append (i : Instr Label) : Edit Unit := fun r =>
  if i.endsBlock then (.ok (), { r with code := r.code.push i, depth := 0, reachable := false })
  else (.ok (), { r with code := r.code.push i })

def instruct (i : Instr Label) : Edit Unit := do
  pop i.pops
  push i.pushes
  append i

/-- Binds a label to the next instruction, which is then reached with the depth that branches bring
to the label, or with the depth at hand where none does yet. -/
def placeLabel (label : Label) : Edit Unit := fun r =>
  match r.placed[label.id]? with
  | none => (.error (.unknownLabel label.id), r)
  | some (some _) => (.error (.placedTwice label.id r.name), r)
  | some none =>
      let depth := (r.entryDepth[label.id]?.join).getD (if r.reachable then r.depth else 0)
      let position := r.code.size
      (.ok (), { r with
        placed := r.placed.setIfInBounds label.id (some position)
        depth := depth
        reachable := true })

/-- Records the depth that a branch brings to a label; all branches must bring the same. -/
def branchTo (label : Label) : Edit Unit := fun r =>
  match r.entryDepth[label.id]? with
  | none => (.error (.unknownLabel label.id), r)
  | some known =>
      if known.any (· != r.depth) then (.error (.depthAtLabel label.id r.name), r)
      else
        let depth := r.depth
        (.ok (), { r with entryDepth := r.entryDepth.setIfInBounds label.id (some depth) })

def loadLocal (slot : Nat) : Edit Unit := do
  let r ← get
  if slot < r.maxLocals then instruct (.loadLocal slot)
  else throw (.localSlot r.maxLocals slot)

def ret (kind : ReturnKind) : Edit Unit := do
  let r ← get
  match kind with
  | .void =>
      if r.sig.returnsVoid then instruct .retVoid
      else throw (.returnKind r.sig.ret.text kind.text)
  | .reference =>
      if r.sig.ret.isReference then instruct .ret
      else throw (.returnKind r.sig.ret.text kind.text)

def insertCase (first : Int32 × Label) : List (Int32 × Label) → List (Int32 × Label)
  | [] => [first]
  | next :: rest =>
      if first.1 ≤ next.1 then first :: next :: rest else next :: insertCase first rest

/-- The cases of a switch in the order of their keys. -/
def sortCases (cases : List (Int32 × Label)) : List (Int32 × Label) := cases.foldr insertCase []

/-- The first key that follows itself. -/
def repeated? : List (Int32 × Label) → Option Int32
  | first :: next :: rest =>
      if first.1 = next.1 then some first.1 else repeated? (next :: rest)
  | _ => none

def lookupSwitch (default : Label) (cases : List (Int32 × Label)) : Edit Unit := do
  pop 1
  branchTo default
  cases.forM fun (_, label) => branchTo label
  let sorted := sortCases cases
  match repeated? sorted with
  | some key => throw (.duplicateKey key)
  | none => append (.lookupSwitch default sorted)

def tableSwitch (low : Int32) (default : Label) (targets : List Label) : Edit Unit := do
  pop 1
  branchTo default
  targets.forM branchTo
  append (.tableSwitch low default targets)

end Edit

structure Assembler where
  /-- The name and the base of the unit, once it is begun. -/
  header : Option (String × String) := none
  routines : Array Routine := #[]
  current : Option OpenRoutine := none

namespace Assembler

def within (edit : Edit Unit) : Emit Assembler Unit
  | ⟨header, routines, some r⟩ =>
      let (result, r) := edit r
      (result, ⟨header, routines, some r⟩)
  | a => (.error .outsideRoutine, a)

def newLabel : StateM Assembler Label
  | ⟨header, routines, some r⟩ =>
      let (label, r) := r.newLabel
      (label, ⟨header, routines, some r⟩)
  | a => (.nowhere, a)

def beginUnit (name base : String) : Emit Assembler Unit := fun a =>
  match a.header with
  | some (started, _) => (.error (.unitStarted started), a)
  | none => (.ok (), { a with header := some (name, base) })

def beginRoutine (access : Access) (name : String) (sig : Signature) : Emit Assembler Unit :=
  fun a =>
    match a.header, a.current with
    | none, _ => (.error .routineBeforeUnit, a)
    | some _, some r => (.error (.routineInRoutine r.name), a)
    | some _, none =>
        if frameLimit < sig.params.length then (.error (.parameterCount sig.params.length), a)
        else (.ok (), { a with current := some (.start access name sig) })

def invoke (site : CallSite) : Emit Assembler Unit :=
  if frameLimit < site.operands then throw (.argumentCount site.operands)
  else within (.instruct (.call site))

def endRoutine : Emit Assembler Unit
  | ⟨header, routines, none⟩ => (.error .endOutsideRoutine, ⟨header, routines, none⟩)
  | ⟨header, routines, some r⟩ =>
      match r.finish with
      | .error e => (.error e, ⟨header, routines, none⟩)
      | .ok routine =>
          if routines.any (·.answersTo routine.name routine.descriptor) then
            (.error (.duplicateRoutine routine.name routine.descriptor), ⟨header, routines, none⟩)
          else (.ok (), ⟨header, routines.push routine, none⟩)

def perform : Directive Label → Emit Assembler Unit
  | .beginUnit name base => beginUnit name base
  | .beginRoutine access name sig => beginRoutine access name sig
  | .placeLabel label => within (.placeLabel label)
  | .loadLocal slot => within (.loadLocal slot)
  | .pushInt value => within (.instruct (.pushInt value))
  | .pushNull => within (.instruct .pushNull)
  | .arrayLoad => within (.instruct .arrayLoad)
  | .unbox kind => within (.instruct (.unbox kind))
  | .checkCast target =>
      if target.isReference then within (.instruct (.checkCast target))
      else throw (.castTarget target.text)
  | .invoke kind owner name sig => invoke { kind, owner, name, sig }
  | .box kind => within (.instruct (.box kind))
  | .ret kind => within (.ret kind)
  | .lookupSwitch default cases => within (.lookupSwitch default cases)
  | .tableSwitch low default targets =>
      if targets.isEmpty then throw .tableWithoutTargets
      else within (.tableSwitch low default targets)
  | .endRoutine => endRoutine

def finish : Emit Assembler CodeUnit := fun a =>
  match a.current, a.header with
  | some r, _ => (.error (.unitWithOpenRoutine r.name), a)
  | none, none => (.error .unitNotBegun, a)
  | none, some (name, base) => (.ok { name, base, routines := a.routines }, a)

end Assembler

instance : Emitter Assembler Label CodeUnit where
  newLabel := Assembler.newLabel
  perform := Assembler.perform
  finish := Assembler.finish

end TokenDispatch
