import TokenDispatch.CodeUnit

/-!
The listing of a unit: its name and base, then each routine with its frame sizes and its numbered
instructions. Numbers of fewer than three digits are set to the right of three columns.
-/

namespace TokenDispatch

def position (n : Nat) : String :=
  let digits := toString n
  String.ofList (List.replicate (3 - digits.length) ' ') ++ digits

namespace Routine

def heading (r : Routine) : String :=
  s!"{r.access.keyword} {r.name}{r.descriptor} [stack={r.maxStack}, locals={r.maxLocals}]\n"

def listing (r : Routine) : String :=
  r.heading ++ String.join
    (r.code.toList.zipIdx.map fun (i, n) => s!"  {position n}: {i.text}\n")

end Routine

def CodeUnit.listing (u : CodeUnit) : String :=
  s!"unit {u.name} extends {u.base}\n" ++
    String.join (u.routines.toList.map fun r => "\n" ++ r.listing)

end TokenDispatch
