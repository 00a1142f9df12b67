import TokenDispatch.Proofs.Runs

/-!
Where switches lead. A switch sends every key to one of its targets, be they labels of an open
routine or positions in a finished one, and putting positions in place of labels does not change
which. The machine takes the key off the stack and goes on where it is sent.
-/

namespace TokenDispatch

namespace Instr

variable {τ ρ : Type}

/-- Where a switch sends a key: to the first case with it, in a lookup. Where the keys ascend, as
`Draft.Routes.ascending` says they do, it is the only one. Other instructions send keys nowhere. -/
def route? (key : Int32) : Instr τ → Option τ
  | lookupSwitch default cases => some (((cases.find? (·.1 == key)).map (·.2)).getD default)
  | tableSwitch low default targets =>
      let distance := key.toInt - low.toInt
      let target? := if 0 ≤ distance then targets[distance.toNat]? else none
      some (target?.getD default)
  | _ => none

theorem route?_map (g : τ → ρ) (key : Int32) (i : Instr τ) :
    (i.map g).route? key = (i.route? key).map g := by
  cases i with
  | lookupSwitch default cases =>
      simp only [map, route?, List.find?_map, Function.comp_def, Option.map_some, Option.map_map]
      cases cases.find? (·.1 == key) <;> rfl
  | tableSwitch low default targets =>
      simp only [map, route?, List.getElem?_map, Option.map_some]
      split
      · cases targets[(key.toInt - low.toInt).toNat]? <;> rfl
      · rfl
  | _ => rfl

/-! A lookup, whatever the order of its cases. -/

theorem route?_of_case {default label : τ} {cases : List (Int32 × τ)} {key : Int32}
    (distinct : (cases.map (·.1)).Nodup) (mem : (key, label) ∈ cases) :
    (lookupSwitch default cases).route? key = some label := by
  have found : cases.find? (·.1 == key) = some (key, label) := by
    induction cases with
    | nil => cases mem
    | cons first rest ih =>
        obtain ⟨fresh, distinct⟩ := List.nodup_cons.mp distinct
        obtain rfl | later := List.mem_cons.mp mem
        · simp
        · have other : first.1 ≠ key := fun same =>
            fresh (List.mem_map.mpr ⟨(key, label), later, same.symm⟩)
          rw [List.find?_cons_of_neg (by simpa using other), ih distinct later]
  rw [route?, found]
  rfl

theorem route?_of_no_case {default : τ} {cases : List (Int32 × τ)} {key : Int32}
    (missing : key ∉ cases.map (·.1)) : (lookupSwitch default cases).route? key = some default := by
  have none_ : cases.find? (·.1 == key) = none := by
    refine List.find?_eq_none.mpr fun c mem same => missing ?_
    exact List.mem_map.mpr ⟨c, mem, by simpa using same⟩
  rw [route?, none_]
  rfl

/-! A table. The distance of a key is not that of a word: it never wraps. -/

theorem route?_of_slot {low key : Int32} {default label : τ} {targets : List τ} {slot : Nat}
    (distance : key.toInt = low.toInt + slot) (found : targets[slot]? = some label) :
    (tableSwitch low default targets).route? key = some label := by
  have eq_slot : key.toInt - low.toInt = slot := by omega
  simp only [route?, eq_slot, Int.natCast_nonneg, if_true, Int.toNat_natCast, found,
    Option.getD_some]

theorem route?_of_no_slot {low key : Int32} {default : τ} {targets : List τ}
    (outside : key.toInt < low.toInt ∨ low.toInt + targets.length ≤ key.toInt) :
    (tableSwitch low default targets).route? key = some default := by
  have none_ : (if 0 ≤ key.toInt - low.toInt then targets[(key.toInt - low.toInt).toNat]?
      else none) = none := by
    split
    · exact List.getElem?_eq_none (by omega)
    · rfl
  simp only [route?, none_, Option.getD_none]

theorem mem_targets_of_route? {i : Instr τ} {key : Int32} {target : τ}
    (sent : i.route? key = some target) : target ∈ i.targets := by
  cases i with
  | lookupSwitch default cases =>
      cases sent
      cases found : cases.find? (·.1 == key) with
      | none => exact .head _
      | some c => exact .tail _ (List.mem_map.mpr ⟨c, List.mem_of_find?_eq_some found, rfl⟩)
  | tableSwitch low default targets =>
      cases sent
      split
      · cases found : targets[(key.toInt - low.toInt).toNat]? with
        | none => exact .head _
        | some target => exact .tail _ (List.mem_of_getElem? found)
      · exact .head _
  | _ => cases sent

theorem isLocal_of_route? {i : Instr τ} {key : Int32} {target : τ}
    (sent : i.route? key = some target) : i.isLocal = true := by
  cases i with
  | call _ | ret | retVoid => cases sent
  | _ => rfl

end Instr

namespace Frame

theorem exec_eq_map (h : Hierarchy) (f : Frame) (i : Instr Nat)
    (sends : ∀ key, ∃ target, i.route? key = some target) :
    f.exec h i =
      f.popInt.map fun taken => { taken.2 with position := (i.route? taken.1).getD 0 } := by
  cases i with
  | lookupSwitch _ _ | tableSwitch _ _ _ =>
      rw [exec]
      cases f.popInt <;> rfl
  | _ => cases (sends 0).choose_spec

/-- What a switch does to a frame depends on where it sends keys, and on nothing else. -/
theorem exec_congr (h : Hierarchy) (f : Frame) (i j : Instr Nat)
    (sends : ∀ key, ∃ target, i.route? key = some target)
    (alike : ∀ key, i.route? key = j.route? key) : f.exec h i = f.exec h j := by
  rw [f.exec_eq_map h i sends, f.exec_eq_map h j fun key => alike key ▸ sends key]
  simp only [alike]

/-- The machine goes where a switch sends the key on top of the stack. -/
theorem exec_route (h : Hierarchy) (f : Frame) (i : Instr Nat) (key : Int32) (target : Nat)
    (s : List Operand) (sent : i.route? key = some target) (stack : f.stack = .int key :: s) :
    f.exec h i = .ok { f with position := target, stack := s } := by
  cases i with
  | lookupSwitch _ _ | tableSwitch _ _ _ =>
      rw [exec, f.popInt_eq key s stack, except_ok_bind]
      cases sent
      rfl
  | _ => cases sent

end Frame

/-- One step from a switch leads where it sends the key, in the same frame and world. -/
theorem Program.step_route {p : Program} (i : Instr Nat) (key : Int32) (target : Nat)
    (sent : i.route? key = some target) (f : Frame) (callers : List Caller) (s : List Operand)
    (here : f.routine.code[f.position]? = some i) (stack : f.stack = .int key :: s) (w : World) :
    p.step ⟨f, callers⟩ w = (.next ⟨{ f with position := target, stack := s }, callers⟩, w) := by
  rw [step_local i (Instr.isLocal_of_route? sent) f callers here,
    f.next.exec_route p.env.hierarchy i key target s sent stack]
  rfl

end TokenDispatch
