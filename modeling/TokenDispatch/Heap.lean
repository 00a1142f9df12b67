import TokenDispatch.Value

/-!
The fields of objects. A new object gets the next free number and has no fields; a field that was
never written is absent, not null.
-/

namespace TokenDispatch

structure Heap where
  /-- The number the next object gets. -/
  next : Nat := 0
  fields : List ((Nat × String) × Value) := []

namespace Heap

def alloc (h : Heap) (className : String) : Value × Heap :=
  (.object h.next className, { h with next := h.next + 1 })

def get? (h : Heap) (id : Nat) (field : String) : Option Value := h.fields.lookup (id, field)

def set (h : Heap) (id : Nat) (field : String) (value : Value) : Heap :=
  { h with fields := ((id, field), value) :: h.fields.filter fun entry => entry.1 != (id, field) }

end Heap

end TokenDispatch
