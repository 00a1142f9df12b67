import TokenDispatch.Host

/-!
What a run of generated code can change: the heap, and the record of the calls it made outside, in
order. A call that faults leaves in place all that was done before.
-/

namespace TokenDispatch

inductive OutsideCall where
  | host (method : HostMethod) (receiver : Option Value) (args : List Operand)
      (result : Except Fault Operand)
  | init (result : Except Fault Unit)
  | fallback (token : Int32) (receiver arguments : Value) (result : Except Fault Value)

structure World where
  heap : Heap := {}
  calls : Array OutsideCall := #[]

abbrev Exec := ExceptT Fault (StateM World)

namespace World

/-- Lets an action outside work on the heap, and records the call with its result. -/
def outside {α : Type} (action : Heap → Except Fault α × Heap)
    (record : Except Fault α → OutsideCall) : Exec α := fun w =>
  let (result, heap) := action w.heap
  (result, { heap := heap, calls := w.calls.push (record result) })

end World

end TokenDispatch
