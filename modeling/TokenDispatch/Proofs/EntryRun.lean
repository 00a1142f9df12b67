import TokenDispatch.Proofs.MethodRun
import TokenDispatch.Proofs.SwitchRouting
import TokenDispatch.Proofs.UnitLayout

/-!
The run of the entry point: its switch goes to the branch of the position that the token stands for,
and to the last branch for every other token. A branch calls the routine of its method, the last one
the fallback of the base, and what they answer is what the entry point returns.
-/

namespace TokenDispatch

theorem eq_positionKey_iff (token : Int32) (position : Nat) (h : position < Token.limit) :
    token = positionKey position ↔ token.toInt = position + 1 := by
  rw [← positionKey_toInt position h]
  exact ⟨congrArg Int32.toInt, Int32.toInt_inj.mp⟩

/-! Its switch. -/

theorem route?_entrySwitch (form : SwitchForm) (count : Nat) (low : count ≤ Token.limit)
    (position : Nat) (lt : position < count) :
    (entrySwitch form count).route? (positionKey position) = some (branchStart position) := by
  rw [entrySwitch, positionSwitch]
  split
  · have distance : (positionKey position).toInt = (1 : Int32).toInt + position := by
      rw [positionKey_toInt position (by omega)]
      exact Int.add_comm _ _
    exact Instr.route?_of_slot distance (by simp [entryCases, List.getElem?_range lt])
  · refine Instr.route?_of_case ?_ (List.mem_map.mpr ⟨position, List.mem_range.mpr lt, rfl⟩)
    rw [entryCases_keys]
    exact (positionKeys_ascending count low).imp Int32.ne_of_lt

theorem route?_entrySwitch_other (form : SwitchForm) (count : Nat) (low : count ≤ Token.limit)
    (token : Int32) (other : ∀ position < count, token ≠ positionKey position) :
    (entrySwitch form count).route? token = some (branchStart count) := by
  rw [entrySwitch, positionSwitch]
  split
  · have one : (1 : Int32).toInt = 1 := rfl
    have length_eq : ((entryCases count).map (·.2)).length = count := by simp [entryCases]
    refine Instr.route?_of_no_slot ?_
    rw [one, length_eq]
    obtain below | positive := Int.lt_or_le token.toInt 1
    · exact .inl below
    · refine .inr (Int.not_lt.mp fun inside => ?_)
      have same : token.toInt = ((token.toInt - 1).toNat : Int) + 1 := by omega
      exact other _ (by omega) ((eq_positionKey_iff token _ (by omega)).mpr same)
  · refine Instr.route?_of_no_case fun mem => ?_
    rw [entryCases_keys] at mem
    obtain ⟨position, among, same⟩ := List.mem_map.mp mem
    exact other position (List.mem_range.mp among) same.symm

namespace Frame

variable (f : Frame) (h : Hierarchy)

/-- The switch of the entry goes to the branch of a position. -/
theorem exec_entrySwitch (form : SwitchForm) (count : Nat) (low : count ≤ Token.limit)
    (position : Nat) (lt : position < count) (s : List Operand)
    (stack : f.stack = .int (positionKey position) :: s) :
    f.exec h (entrySwitch form count) =
      .ok { f with position := branchStart position, stack := s } :=
  f.exec_route h _ _ _ s (route?_entrySwitch form count low position lt) stack

/-- For any other token it goes to the last branch. -/
theorem exec_entrySwitch_other (form : SwitchForm) (count : Nat) (low : count ≤ Token.limit)
    (token : Int32) (other : ∀ position < count, token ≠ positionKey position) (s : List Operand)
    (stack : f.stack = .int token :: s) :
    f.exec h (entrySwitch form count) =
      .ok { f with position := branchStart count, stack := s } :=
  f.exec_route h _ _ _ s (route?_entrySwitch_other form count low token other) stack

end Frame

/-! Branches. -/

theorem flatMap_branchCode_drop (unit : String) (routines : List String)
    (tail : List (Instr Nat)) (i : Nat) (h : i ≤ routines.length) :
    (routines.flatMap (branchCode .special unit) ++ tail).drop (2 * i) =
      (routines.drop i).flatMap (branchCode .special unit) ++ tail := by
  induction routines generalizing i with
  | nil =>
      cases Nat.le_zero.mp h
      rfl
  | cons routine routines ih =>
      cases i with
      | zero => rfl
      | succ i =>
          rw [List.drop_succ_cons, ← ih i (Nat.le_of_succ_le_succ h)]
          rfl

theorem entryCode_drop (form : SwitchForm) (unit : String) (routines : List String) (i : Nat)
    (h : i ≤ routines.length) :
    (entryCode form unit routines).drop (branchStart i) =
      (routines.drop i).flatMap (branchCode .special unit) ++
        branchCode .virtual unit RoutineName.fallback := by
  rw [← flatMap_branchCode_drop unit routines _ i h, branchStart, ← List.drop_drop]
  rfl

namespace Program

variable {p : Program} {allowed : CallSite → Option Value → Prop} {options : Options}
  {unit : String} {methods : List Method} {entry : Routine}
  {self receiver arguments : Value} {token : Int32} {w v : World}
  {r : Except Fault (Option Operand)}

/-- The operands of the entry point. -/
def entryLocals (self : Value) (token : Int32) (receiver arguments : Value) : List Operand :=
  [.ref self, .int token, .ref receiver, .ref arguments]

/-- Where a run of the entry point begins. -/
def entryStart (entry : Routine) (self : Value) (token : Int32) (receiver arguments : Value) :
    Config :=
  ⟨{ routine := entry, locals := entryLocals self token receiver arguments }, []⟩

/-- The frame of the entry at a branch, with the operands of its call on the stack. -/
def branchFrame (entry : Routine) (locals : List Operand) (position : Nat) : Frame :=
  { routine := entry, locals := locals, position := branchStart position, stack := locals.reverse }

theorem rest_branchFrame (form : SwitchForm) (routines : List String)
    (code_eq : entry.code.toList = entryCode form unit routines) (locals : List Operand)
    (position : Nat) (h : position ≤ routines.length) :
    (branchFrame entry locals position).rest =
      (routines.drop position).flatMap (branchCode .special unit) ++
        branchCode .virtual unit RoutineName.fallback := by
  rw [Frame.rest, ← entryCode_drop form unit routines position h, ← code_eq]
  rfl

/-- The entry point gets to the branch that its switch selects. -/
theorem Yields.entry_branch_iff (form : SwitchForm) (routines : List String)
    (code_eq : entry.code.toList = entryCode form unit routines) (position : Nat)
    (routes : ∀ f : Frame, f.stack = .int token :: [.ref arguments, .ref receiver, .int token,
      .ref self] → f.exec p.env.hierarchy (entrySwitch form routines.length) =
        .ok { f with
          position := branchStart position
          stack := [.ref arguments, .ref receiver, .int token, .ref self] }) :
    p.Yields allowed (entryStart entry self token receiver arguments) w r v ↔
      p.Yields allowed
        ⟨branchFrame entry (entryLocals self token receiver arguments) position, []⟩ w r v := by
  let f : Frame := { routine := entry, locals := entryLocals self token receiver arguments }
  have here : f.rest = entryLoads ++ (entrySwitch form routines.length ::
      (routines.flatMap (branchCode .special unit) ++
        branchCode .virtual unit RoutineName.fallback)) := by
    change entry.code.toList.drop 0 = _
    rw [code_eq]
    simp [entryCode]
  have loads : f.execAll p.env.hierarchy entryLoads =
      .ok (f.advance 5 [.int token, .ref arguments, .ref receiver, .int token, .ref self]) := rfl
  have straight : ∀ i ∈ (entryLoads : List (Instr Nat)), i.isStraight = true := by
    simp [entryLoads, Instr.isStraight]
  refine ((straight_iff allowed entryLoads _ straight f [] here).2 _ loads).trans ?_
  let g := f.advance 5 [.int token, .ref arguments, .ref receiver, .int token, .ref self]
  have g_rest : g.rest = entrySwitch form routines.length ::
      (routines.flatMap (branchCode .special unit) ++
        branchCode .virtual unit RoutineName.fallback) := by
    rw [Frame.rest_advance, here]
    rfl
  have within : (entrySwitch form routines.length).isLocal = true := by
    rw [entrySwitch, positionSwitch]
    split <;> rfl
  have at_switch := (g.code_eq_of_rest _ _ g_rest).1
  have step := step_local (p := p) _ within g [] at_switch w
  rw [routes g.next rfl] at step
  exact next_iff (asksOnly_of_local _ within g [] at_switch) step

theorem Yields.entry_return_iff (f : Frame) (rest : List (Instr Nat)) (here : f.rest = .ret :: rest)
    (answer : Value) (stack : f.stack = [.ref answer]) :
    p.Yields allowed ⟨f, []⟩ w r v ↔ r = .ok (some (.ref answer)) ∧ v = w := by
  have at_ret := (f.code_eq_of_rest _ _ here).1
  refine returned_iff (asksOnly_of_code .ret at_ret nofun) ?_
  rw [step_ret f [] at_ret, f.next.popReference_eq answer [] stack]
  rfl

/-- The routine of a position is what its branch calls. -/
theorem link?_routine (lays : p.unit.Lays options unit methods) (position : Nat) (m : Method)
    (found : methods[position]? = some m) :
    ∃ routine : Routine, routine.code.toList = m.code ∧
      p.unit.link? (branchSite .special unit (routineName options.stem position)) =
        some (.routine routine) := by
  obtain ⟨routine, get, holds⟩ := lays.routine position m found
  refine ⟨routine, holds.code_eq, ?_⟩
  rw [CodeUnit.link?, branchSite]
  simp only [lays.name_eq, beq_self_eq_true, if_true, Bool.true_or]
  rw [lays.find?_of_holds get holds]
  rfl

/-- The entry point answers the token of a position with the evaluation of its method, and asks for
the call of that method only. -/
theorem Yields.entry_method_iff (lays : p.unit.Lays options unit methods)
    (code_eq : entry.code.toList = entryCode options.form unit
      ((List.range methods.length).map (routineName options.stem)))
    (position : Nat) (m : Method) (found : methods[position]? = some m) :
    p.Yields allowed (entryStart entry self (positionKey position) receiver arguments) w r v ↔
      p.LetsCall allowed m receiver arguments ∧
        r = (m.evaluate p.env.hierarchy (p.respond m) receiver arguments w).1.map
          (fun answer => some (.ref answer)) ∧
        v = (m.evaluate p.env.hierarchy (p.respond m) receiver arguments w).2 := by
  have bound : position < methods.length := (List.getElem?_eq_some_iff.mp found).1
  have count : ((List.range methods.length).map (routineName options.stem)).length =
      methods.length := by simp
  refine (entry_branch_iff options.form _ code_eq position fun f stack => ?_).trans ?_
  · rw [count]
    exact f.exec_entrySwitch _ options.form methods.length lays.count_le position bound _ stack
  let g := branchFrame entry (entryLocals self (positionKey position) receiver arguments) position
  obtain ⟨routine, routine_code, linked⟩ := link?_routine lays position m found
  have g_rest : g.rest = branchCode .special unit (routineName options.stem position) ++
      (((List.range methods.length).map (routineName options.stem)).drop (position + 1)).flatMap
          (branchCode .special unit) ++ branchCode .virtual unit RoutineName.fallback := by
    rw [rest_branchFrame options.form _ code_eq _ position (by omega),
      List.drop_eq_getElem_cons (by omega)]
    simp
  obtain ⟨at_call, after_call⟩ := g.code_eq_of_rest _ _ g_rest
  let site := branchSite .special unit (routineName options.stem position)
  let locals := entryLocals self (positionKey position) receiver arguments
  have asks : p.AsksOnly allowed ⟨g, []⟩ := asksOnly_of_linked site _ at_call linked
  have called : p.step ⟨g, []⟩ w =
      (.next ⟨{ routine := routine, locals := locals }, [⟨g.advance 1 [], site⟩]⟩, w) := by
    rw [step_call site g [] at_call, p.call_laid site g.next [] (some self)
      [.int (positionKey position), .ref receiver, .ref arguments] [] rfl rfl rfl w]
    rw [enter, linked]
    rfl
  have callable := lays.callable m (List.mem_of_getElem? found)
  obtain ⟨faults, answers⟩ := method_iff (p := p)
    (f := { routine := routine, locals := locals }) (w := w) (r := r) (v := v) allowed
    [⟨g.advance 1 [], site⟩] callable receiver arguments rfl rfl routine_code rfl
  refine (next_iff asks called).trans ?_
  rcases outcome : m.evaluate p.env.hierarchy (p.respond m) receiver arguments w with
    ⟨fault | answer, u⟩
  · exact faults fault u outcome
  · refine (answers answer u ⟨(g.advance 1 []).push (.ref answer), []⟩ outcome rfl).trans ?_
    refine and_congr_right fun _ => ?_
    exact entry_return_iff ((g.advance 1 []).push (.ref answer)) _ after_call answer rfl

/-- Every other token goes to the fallback of the base. -/
theorem Yields.entry_other_iff (lays : p.unit.Lays options unit methods)
    (code_eq : entry.code.toList = entryCode options.form unit
      ((List.range methods.length).map (routineName options.stem)))
    (other : ∀ position < methods.length, token ≠ positionKey position) :
    p.Yields allowed (entryStart entry self token receiver arguments) w r v ↔
      r = (p.contract.runFallback token receiver arguments w).1.map
          (fun answer => some (.ref answer)) ∧
        v = (p.contract.runFallback token receiver arguments w).2 := by
  have count : ((List.range methods.length).map (routineName options.stem)).length =
      methods.length := by simp
  refine (entry_branch_iff options.form _ code_eq methods.length fun f stack => ?_).trans ?_
  · rw [count]
    exact f.exec_entrySwitch_other _ options.form methods.length lays.count_le token other _ stack
  let g := branchFrame entry (entryLocals self token receiver arguments) methods.length
  have g_rest : g.rest = branchCode .virtual unit RoutineName.fallback := by
    rw [rest_branchFrame options.form _ code_eq _ methods.length (by omega),
      List.drop_of_length_le (by omega)]
    rfl
  obtain ⟨at_call, after_call⟩ := g.code_eq_of_rest _ _ g_rest
  let site := branchSite .virtual unit RoutineName.fallback
  have linked : p.unit.link? site = some .fallback := by
    change (if ((unit == p.unit.name) || (unit == p.unit.base)) && CodeUnit.namesFallback site then
      some Link.fallback else none) = _
    simp [lays.name_eq, CodeUnit.namesFallback, site, branchSite]
  have asks : p.AsksOnly allowed ⟨g, []⟩ := asksOnly_of_linked site _ at_call linked
  have called : p.step ⟨g, []⟩ w =
      answer (p.callFallback [.int token, .ref receiver, .ref arguments]) (g.advance 1 []) site []
        w := by
    rw [step_call site g [] at_call, p.call_laid site g.next [] (some self)
      [.int token, .ref receiver, .ref arguments] [] rfl rfl rfl w]
    rw [enter, linked]
    rfl
  rw [answer, p.callFallback_eq] at called
  rcases outcome : p.contract.runFallback token receiver arguments w with ⟨fault | answer, u⟩
  · rw [outcome] at called
    exact failed_iff asks called
  · rw [outcome] at called
    refine (next_iff asks called).trans ?_
    exact entry_return_iff ((g.advance 1 []).push (.ref answer)) _ after_call answer rfl

end Program

end TokenDispatch
