import TokenDispatch.Contract
import TokenDispatch.Emitter
import TokenDispatch.TokenIndex

/-!
The entry point of a dispatcher: a switch on the token that goes to the routine of the method, and
to the fallback of the base for every token that no method carries. The switch is written as sorted
pairs or as a jump table, and both route alike.
-/

namespace TokenDispatch

inductive SwitchForm where
  | lookup
  /-- A jump table from the least key to the greatest, whatever gaps there are. -/
  | table
  /-- A jump table where the keys are dense. -/
  | auto
deriving DecidableEq

/-- Whether ascending keys are dense enough for a jump table: four or more of them, and at most two
slots for each. -/
def areDense (keys : List Int32) : Bool :=
  match keys.head?, keys.getLast? with
  | some low, some high =>
      4 ≤ keys.length && high.toInt - low.toInt + 1 ≤ 2 * (keys.length : Int)
  | _, _ => false

def SwitchForm.prefersTable (form : SwitchForm) (keys : List Int32) : Bool :=
  match form with
  | .lookup => false
  | .table => !keys.isEmpty
  | .auto => areDense keys

/-- The targets of `count` keys from `key` on: the labels of ascending cases, and the default where
a key has no case. -/
def tableTargets {L : Type} (default : L) (key : Int) :
    Nat → List (Int32 × L) → List L
  | 0, _ => []
  | count + 1, [] => default :: tableTargets default (key + 1) count []
  | count + 1, (next, label) :: rest =>
      if next.toInt = key then label :: tableTargets default (key + 1) count rest
      else default :: tableTargets default (key + 1) count ((next, label) :: rest)

variable {σ L O : Type} [Emitter σ L O]

open Emitter

/-- Switches on the key on top of the stack, given cases with ascending keys. -/
def emitTokenSwitch (form : SwitchForm) (default : L) (cases : List (Int32 × L)) :
    Emit σ Unit :=
  let keys := cases.map (·.1)
  match keys.head?, keys.getLast?, form.prefersTable keys with
  | some low, some high, true =>
      let count := (high.toInt - low.toInt + 1).toNat
      perform (.tableSwitch low default (tableTargets default low.toInt count cases))
  | _, _, _ => perform (.lookupSwitch default cases)

/-- One branch of the entry point: the call of a routine of the unit, and its result. -/
def emitBranch (label : L) (kind : CallKind) (unit routine : String) : Emit σ Unit := do
  perform (.placeLabel label)
  perform (.invoke kind unit routine .dispatch)
  perform (.ret .reference)

/-- The entry point of the unit named `unit`; the routines are named in the order of the index. -/
def emitEntry (unit : String) (index : TokenIndex) (routines : List String)
    (form : SwitchForm) : Emit σ Unit := do
  if routines.length ≠ index.size then throw (.routineNames index.size routines.length)
  perform (.beginRoutine .exported RoutineName.entry .dispatch)
  -- the operands of whichever routine the switch selects
  perform (.loadLocal Slot.self)
  perform (.loadLocal Slot.token)
  perform (.loadLocal Slot.receiver)
  perform (.loadLocal Slot.arguments)
  perform (.loadLocal Slot.token)
  let default ← fresh
  let cases ← index.keys.mapM fun key => return (key, ← fresh)
  emitTokenSwitch form default cases
  (cases.zip routines).forM fun ((_, label), routine) => emitBranch label .special unit routine
  emitBranch default .virtual unit RoutineName.fallback
  perform .endRoutine

end TokenDispatch
