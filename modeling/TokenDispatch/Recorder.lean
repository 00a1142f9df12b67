import TokenDispatch.Emitter

/-!
The emitter that writes nothing and keeps a record of the calls made on it. It accepts every call,
or refuses each call that comes once a number of them are recorded. Making a label is not recorded.
-/

namespace TokenDispatch

inductive RecordedCall where
  | directive (d : Directive Nat)
  | finish
deriving DecidableEq

namespace RecordedCall

def text : RecordedCall → String
  | finish => "finish_unit"
  | directive d =>
      match d with
      | .beginUnit name base => s!"begin_unit {name} {base}"
      | .beginRoutine access name sig => s!"begin_method {access.keyword} {name} {sig.descriptor}"
      | .placeLabel label => s!"place_label {label}"
      | .loadLocal slot => s!"load_local {slot}"
      | .pushInt value => s!"push_int {value.toInt}"
      | .pushNull => "push_null"
      | .arrayLoad => "array_load"
      | .unbox kind => "unbox " ++ kind.name
      | .checkCast target => "check_cast " ++ target.text
      | .invoke kind owner name sig => s!"{kind.mnemonic} {owner}.{name}{sig.descriptor}"
      | .box kind => "box_value " ++ kind.name
      | .ret .void => "ret void"
      | .ret .reference => "ret reference"
      | .lookupSwitch default cases =>
          let shown := cases.map fun (key, label) => s!"{key.toInt}:{label}"
          s!"lookup_switch {default} [" ++ " ".intercalate shown ++ "]"
      | .tableSwitch low default targets =>
          s!"table_switch {low.toInt} {default} [" ++ " ".intercalate (targets.map toString) ++ "]"
      | .endRoutine => "end_method"

end RecordedCall

structure Recorder where
  calls : Array RecordedCall := #[]
  labels : Nat := 0
  /-- How many calls are recorded before the first refusal. -/
  capacity : Option Nat := none
  /-- The error that a refused call ends with. -/
  refusal : RecordedCall → EmitError

namespace Recorder

def record (call : RecordedCall) : Emit Recorder Unit := fun r =>
  if r.capacity = some r.calls.size then (.error (r.refusal call), r)
  else (.ok (), { r with calls := r.calls.push call })

end Recorder

instance : Emitter Recorder Nat Unit where
  newLabel r := (r.labels, { r with labels := r.labels + 1 })
  perform d := Recorder.record (.directive d)
  finish := Recorder.record .finish

end TokenDispatch
