import TokenDispatch.Dispatcher
import TokenDispatch.Proofs.EntryRun

/-!
Invocations of a compiled dispatcher. Compiling leaves a dispatcher whose unit has the known layout,
and invoking it does what the evaluation of the selected method does, or what the fallback does; the
number of steps only decides whether the invocation gets to its end.
-/

namespace TokenDispatch

namespace Dispatcher

/-- A dispatcher that serves a list of methods, in an environment and on a contract. -/
structure Serves (d : Dispatcher) (options : Options) (unit : String) (methods : List Method)
    (env : Environment) (contract : Contract) : Prop where
  env_eq : d.env = env
  contract_eq : d.contract = contract
  lays : d.unit.Lays options unit methods
  entry_code : d.entry.code.toList = entryCode options.form unit
    ((List.range methods.length).map (routineName options.stem))

theorem required_ok (p : Program) (name : String) (sig : Signature) (r : Routine)
    (h : p.required name sig = .ok r) : p.unit.find? name sig.descriptor = some r := by
  rw [Program.required, CodeUnit.exported?] at h
  split at h
  · rename_i found
    cases h
    exact (Option.filter_eq_some_iff.mp found).1
  · cases h

theorem linked_ok (p : Program) (init entry : Routine) (h : p.linked = .ok (init, entry)) :
    p.unit.base = p.contract.name ∧
      p.unit.find? RoutineName.initializer Signature.initializer.descriptor = some init ∧
      p.unit.find? RoutineName.entry Signature.dispatch.descriptor = some entry := by
  rw [Program.linked] at h
  by_cases fits : p.unit.base = p.contract.name
  · rw [if_neg (not_not_intro fits)] at h
    obtain ⟨init', first, h⟩ := (except_bind_ok_iff _ _ _).mp h
    obtain ⟨entry', second, h⟩ := (except_bind_ok_iff _ _ _).mp h
    split at h
    · cases h
    · cases h
      exact ⟨fits, required_ok p _ _ _ first, required_ok p _ _ _ second⟩
  · rw [if_pos fits] at h
    cases h

theorem load_done (steps : Nat) (p : Program) (w v : World) (d : Dispatcher)
    (h : load steps p w = (.done d, v)) :
    d.toProgram = p ∧ ∃ init, p.linked = .ok (init, d.entry) := by
  rw [load] at h
  cases linked : p.linked with
  | error e =>
      rw [linked] at h
      cases h
  | ok routines =>
      obtain ⟨init, entry⟩ := routines
      rw [linked] at h
      dsimp only at h
      split at h
      · cases h
        exact ⟨rfl, init, rfl⟩
      · cases h
      · cases h

/-- A dispatcher of a unit with the known layout serves its methods. -/
theorem load_serves (steps : Nat) (options : Options) (unit : String) (methods : List Method)
    (p : Program) (lays : p.unit.Lays options unit methods) (w v : World) (d : Dispatcher)
    (h : load steps p w = (.done d, v)) : d.Serves options unit methods p.env p.contract := by
  obtain ⟨program_eq, init, linked⟩ := load_done steps p w v d h
  obtain ⟨-, -, found⟩ := linked_ok _ _ _ linked
  obtain ⟨entry, get, holds⟩ := lays.entry
  have same := lays.find?_of_holds get holds
  have entry_eq : d.entry = entry := Option.some.inj (found.symm.trans same)
  refine ⟨by rw [program_eq], by rw [program_eq], by rw [program_eq]; exact lays, ?_⟩
  rw [entry_eq]
  exact holds.code_eq

theorem compile_of_isDone (steps : Nat) (options : Options) (unit : String) (methods : List Method)
    (env : Environment) (contract : Contract) (w : World)
    (loads : (compile steps options unit methods env contract w).2.1.isDone = true) :
    ∃ marked d v, compile steps options unit methods env contract w = (marked, .done d, v) := by
  obtain ⟨d, done⟩ := Outcome.eq_done_of_isDone _ loads
  exact ⟨_, d, _, Prod.ext rfl (Prod.ext done rfl)⟩

theorem compile_serves (steps : Nat) (options : Options) (unit : String) (methods : List Method)
    (env : Environment) (contract : Contract) (w v : World) (marked : List Method)
    (d : Dispatcher)
    (h : compile steps options unit methods env contract w = (marked, .done d, v)) :
    d.Serves options unit methods env contract := by
  unfold compile at h
  dsimp only at h
  cases generated : (generate options unit methods ({} : Assembler)).result with
  | error e =>
      rw [generated] at h
      cases (Prod.mk.inj h).2
  | ok output =>
      obtain ⟨index, u⟩ := output
      rw [generated] at h
      have lays := generate_lays options unit methods index u generated
      exact load_serves steps options unit methods _ lays w v d (Prod.mk.inj h).2

/-- With enough steps an invocation does exactly what an action does, and with fewer it stops on the
way there. Both look for the target of a call on a chain, whether that is the whole walk or not. So
where walks up superclasses end, this says that the invocation ends. On other hierarchies it says
only that the invocation and the action make the same call with the same operands: either both get
past the search for its target or neither does, and `Ends` tells which. -/
def Answers (d : Dispatcher) (token : Int32) (receiver arguments : Value) (action : Exec Value) :
    Prop :=
  ∀ w, ∃ enough, ∀ steps,
    (enough ≤ steps →
      d.invoke steps token receiver arguments w = (.ofExcept (action w).1, (action w).2)) ∧
    (steps < enough →
      ∃ u, d.invoke steps token receiver arguments w = (.exhausted, u) ∧ u.Before (action w).2)

/-- An invocation that ends does what the action does. -/
theorem Answers.ended {d : Dispatcher} {token : Int32} {receiver arguments : Value}
    {action : Exec Value} (answers : d.Answers token receiver arguments action) (steps : Nat)
    (w u : World) (outcome : Outcome Fault Value)
    (h : d.invoke steps token receiver arguments w = (outcome, u))
    (ends : outcome ≠ .exhausted) : outcome = .ofExcept (action w).1 ∧ u = (action w).2 := by
  obtain ⟨enough, run⟩ := answers w
  by_cases le : enough ≤ steps
  · rw [(run steps).1 le] at h
    exact ⟨(Prod.mk.inj h).1.symm, (Prod.mk.inj h).2.symm⟩
  · obtain ⟨v, exhausted, -⟩ := (run steps).2 (Nat.lt_of_not_le le)
    rw [exhausted] at h
    exact absurd (Prod.mk.inj h).1.symm ends

theorem Answers.done {d : Dispatcher} {token : Int32} {receiver arguments : Value}
    {action : Exec Value} (answers : d.Answers token receiver arguments action) (steps : Nat)
    (w u : World) (answer : Value)
    (h : d.invoke steps token receiver arguments w = (.done answer, u)) :
    action w = (.ok answer, u) := by
  obtain ⟨outcome, rfl⟩ := answers.ended steps w u (.done answer) h nofun
  exact Prod.ext (Outcome.ofExcept_eq_done outcome.symm) rfl

theorem Answers.failed {d : Dispatcher} {token : Int32} {receiver arguments : Value}
    {action : Exec Value} (answers : d.Answers token receiver arguments action) (steps : Nat)
    (w u : World) (fault : Fault)
    (h : d.invoke steps token receiver arguments w = (.failed fault, u)) :
    action w = (.error fault, u) := by
  obtain ⟨outcome, rfl⟩ := answers.ended steps w u (.failed fault) h nofun
  exact Prod.ext (Outcome.ofExcept_eq_failed outcome.symm) rfl

/-- What an invocation makes of the end that its entry point comes to. -/
def entryAnswer : Except Fault (Option Operand) → Except Fault Value
  | .ok (some (.ref v)) => .ok v
  | .ok _ => .error (.internal .entryWithoutResult)
  | .error fault => .error fault

theorem entryAnswer_map (result : Except Fault Value) :
    entryAnswer (result.map fun v => some (.ref v)) = result := by
  cases result <;> rfl

theorem invoke_eq (d : Dispatcher) (steps : Nat) (token : Int32) (receiver arguments : Value)
    (w : World) :
    d.invoke steps token receiver arguments w =
      match d.run steps (Program.entryStart d.entry d.self token receiver arguments) w with
      | (.done (some (.ref v)), w) => (.done v, w)
      | (.done _, w) => (.failed (Fault.internal .entryWithoutResult), w)
      | (.failed fault, w) => (.failed fault, w)
      | (.exhausted, w) => (.exhausted, w) := rfl

/-- An invocation ends as the run of the entry point does. -/
theorem invoke_of_yields (d : Dispatcher) {allowed : CallSite → Option Value → Prop}
    (token : Int32) (receiver arguments : Value) {w v : World}
    {r : Except Fault (Option Operand)}
    (yields : d.Yields allowed (Program.entryStart d.entry d.self token receiver arguments) w r
      v) :
    ∃ enough, ∀ steps,
      (enough ≤ steps →
        d.invoke steps token receiver arguments w = (.ofExcept (entryAnswer r), v)) ∧
      (steps < enough →
        ∃ u, d.invoke steps token receiver arguments w = (.exhausted, u) ∧ u.Before v) := by
  obtain ⟨enough, result⟩ := yields.run
  refine ⟨enough, fun steps => ⟨fun le => ?_, fun lt => ?_⟩⟩
  · rw [d.invoke_eq, (result steps).1 le]
    match r with
    | .error _ | .ok none | .ok (some (.prim _)) | .ok (some (.ref _)) => rfl
  · obtain ⟨u, run, before⟩ := (result steps).2 lt
    refine ⟨u, ?_, before⟩
    rw [d.invoke_eq, run]

theorem answers_of_yields (d : Dispatcher) (token : Int32) (receiver arguments : Value)
    (action : Exec Value)
    (h : ∀ w, d.Yields (fun _ _ => True)
      (Program.entryStart d.entry d.self token receiver arguments) w
      ((action w).1.map fun v => some (.ref v)) (action w).2) :
    d.Answers token receiver arguments action := by
  intro w
  have run := d.invoke_of_yields token receiver arguments (h w)
  rwa [entryAnswer_map] at run

variable {d : Dispatcher} {options : Options} {unit : String} {methods : List Method}
  {env : Environment} {contract : Contract}

/-- A token stands for the method at a position, or it is the token of no position. -/
theorem token_cases (methods : List Method) (token : Int32) :
    (∃ position m, methods[position]? = some m ∧ token = positionKey position) ∨
      ∀ position < methods.length, token ≠ positionKey position := by
  by_cases carried : ∃ position < methods.length, token = positionKey position
  · obtain ⟨position, lt, same⟩ := carried
    exact .inl ⟨position, methods[position], List.getElem?_eq_getElem lt, same⟩
  · exact .inr fun position lt same => carried ⟨position, lt, same⟩

/-- Who answers for a method that a dispatcher serves. -/
theorem Serves.respond_eq (serves : d.Serves options unit methods env contract) (m : Method) :
    d.respond m =
      if m.Captured unit options.base then fun _ args => d.callFallback args
      else env.invoke m := by
  funext target args
  rw [Program.respond, serves.lays.name_eq, serves.lays.base_eq, serves.env_eq]
  split <;> rfl

/-- The token of a position is answered with the evaluation of its method. -/
theorem Serves.answers_method (serves : d.Serves options unit methods env contract)
    (position : Nat) (m : Method) (found : methods[position]? = some m)
    (receiver arguments : Value) :
    d.Answers (positionKey position) receiver arguments
      (m.evaluate env.hierarchy (d.respond m) receiver arguments) := by
  rw [← serves.env_eq]
  exact d.answers_of_yields _ _ _ _ fun w =>
    (Program.Yields.entry_method_iff serves.lays serves.entry_code position m found).mpr
      ⟨fun _ _ _ _ => trivial, rfl, rfl⟩

/-- Every other token is answered by the fallback. -/
theorem Serves.answers_other (serves : d.Serves options unit methods env contract)
    (token : Int32) (other : ∀ position < methods.length, token ≠ positionKey position)
    (receiver arguments : Value) :
    d.Answers token receiver arguments (contract.runFallback token receiver arguments) := by
  rw [← serves.contract_eq]
  exact d.answers_of_yields _ _ _ _ fun w =>
    (Program.Yields.entry_other_iff serves.lays serves.entry_code other).mpr ⟨rfl, rfl⟩

end Dispatcher

end TokenDispatch
