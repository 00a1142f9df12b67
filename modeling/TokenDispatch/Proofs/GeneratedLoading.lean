import TokenDispatch.Proofs.HostCalls
import TokenDispatch.Proofs.Loading

/-!
Generated units load. Everything that loading asks of a unit is there under the names that the other
parts use, so only the base can be wrong; on the right base the initializer of the base runs once,
and how it ends is how loading ends. No invocation runs it again.
-/

namespace TokenDispatch

/-! Calls of a generated unit. -/

theorem entryCode_sites (form : SwitchForm) (unit : String) (routines : List String) :
    (entryCode form unit routines).filterMap Instr.site? =
      routines.map (branchSite .special unit) ++
        [branchSite .virtual unit RoutineName.fallback] := by
  have switch : (entrySwitch form routines.length).site? = none := by
    rw [entrySwitch, positionSwitch]
    split <;> rfl
  have branches : (routines.flatMap (branchCode .special unit)).filterMap
      (Instr.site? : Instr Nat → Option CallSite) = routines.map (branchSite .special unit) := by
    rw [List.filterMap_flatMap, List.map_eq_flatMap]
    rfl
  have loads : (entryLoads : List (Instr Nat)).filterMap Instr.site? = [] := rfl
  have last : (branchCode .virtual unit RoutineName.fallback : List (Instr Nat)).filterMap
      Instr.site? = [branchSite .virtual unit RoutineName.fallback] := rfl
  simp only [entryCode, List.filterMap_append, List.filterMap_cons, List.filterMap_nil, switch,
    branches, loads, last, List.nil_append]

theorem Method.site_kind (m : Method) : m.site.kind ≠ .special := by
  change m.shape.kind ≠ .special
  cases m.shape <;> exact nofun

namespace CodeUnit.Lays

variable {u : CodeUnit} {options : Options} {unit : String} {methods : List Method}

/-- The routines are the initializer, the entry point and those of the methods. -/
theorem routine_cases (lays : u.Lays options unit methods) (r : Routine) (mem : r ∈ u.routines) :
    r.code.toList = initializerCode options.base ∨
      r.code.toList = entryCode options.form unit
        ((List.range methods.length).map (routineName options.stem)) ∨
      ∃ m ∈ methods, r.code.toList = m.code := by
  obtain ⟨k, lt, rfl⟩ := Array.mem_iff_getElem.mp mem
  have here := Array.getElem?_eq_getElem lt
  obtain rfl | rfl | later : k = 0 ∨ k = 1 ∨ 2 ≤ k := by omega
  · obtain ⟨init, get, holds⟩ := lays.initializer
    cases here.symm.trans get
    exact .inl holds.code_eq
  · obtain ⟨entry, get, holds⟩ := lays.entry
    cases here.symm.trans get
    exact .inr (.inl holds.code_eq)
  · obtain ⟨position, rfl⟩ := Nat.exists_eq_add_of_le later
    have low : position < methods.length := by
      have := lays.size_eq
      omega
    have found := List.getElem?_eq_getElem low
    obtain ⟨routine, get, holds⟩ := lays.routine position _ found
    cases here.symm.trans get
    exact .inr (.inr ⟨_, List.mem_of_getElem? found, holds.code_eq⟩)

/-- Every special call of a generated unit is linked. -/
theorem unresolved?_eq_none (lays : u.Lays options unit methods) : u.unresolved? = none := by
  refine unresolved?_eq_none_iff.mpr fun r mem site called dangles => dangles.2 ?_
  obtain ⟨special, -⟩ := dangles
  rw [← link?_isSome_iff site special]
  rw [Routine.sites] at called
  obtain code | code | ⟨m, among, code⟩ := lays.routine_cases r mem
  · rw [code] at called
    cases List.mem_singleton.mp called
    obtain ⟨init, exported, -⟩ := lays.exports_initializer
    rw [lays.link?_initializer init exported]
    split <;> rfl
  · rw [code, entryCode_sites, List.mem_append] at called
    obtain branch | fallback := called
    · obtain ⟨routine, named, rfl⟩ := List.mem_map.mp branch
      obtain ⟨position, low, rfl⟩ := List.mem_map.mp named
      have found := List.getElem?_eq_getElem (List.mem_range.mp low)
      obtain ⟨routine, -, linked⟩ := Program.link?_routine (p := ⟨u, {}, .rejecting⟩) lays
        position _ found
      exact Option.isSome_iff_exists.mpr ⟨_, linked⟩
    · cases List.mem_singleton.mp fallback
      cases special
  · rw [code, m.code_sites (lays.callable m among)] at called
    cases List.mem_singleton.mp called
    exact absurd special m.site_kind

theorem exports_entry (lays : u.Lays options unit methods) :
    u.Exports RoutineName.entry .dispatch := by
  obtain ⟨entry, get, holds⟩ := lays.entry
  rw [← exported?_isSome_iff, lays.exported?_of_holds get holds]
  rfl

/-- On the right base, a generated unit is linked. -/
theorem linked (p : Program) (lays : p.unit.Lays options unit methods)
    (base : p.contract.name = options.base) :
    ∃ init entry, p.linked = .ok (init, entry) ∧
      init.code.toList = initializerCode options.base ∧
      p.unit.exported? RoutineName.initializer .initializer = some init := by
  obtain ⟨init, exported, code_eq⟩ := lays.exports_initializer
  have accepted (e : LoadError) : ¬ p.Refuses e := by
    intro refuses
    cases refuses with
    | base other => exact other (lays.base_eq.trans base.symm)
    | initializer _ missing =>
        refine missing ((exported?_isSome_iff _ _).mp ?_)
        rw [exported]
        rfl
    | entry _ _ missing => exact missing lays.exports_entry
    | call _ _ _ r site dangles =>
        have found := (unresolved?_eq_some_iff r site).mpr dangles
        cases lays.unresolved?_eq_none.symm.trans found
  obtain ⟨⟨⟨init', entry⟩, linked⟩, -⟩ := Program.linked_of_accepted accepted
  have found := (Dispatcher.linked_ok p init' entry linked).2.1
  have found' := (Option.filter_eq_some_iff.mp exported).1
  cases found.symm.trans found'
  exact ⟨init, entry, linked, code_eq, exported⟩

end CodeUnit.Lays

/-! Calls on the initializer of the base. -/

/-- Any call but one on the initializer of the base. -/
def OutsideCall.IsLater (call : OutsideCall) : Prop := ∀ result, call ≠ .init result

theorem Program.respond_later (p : Program) (m : Method) (target : Option Value)
    (args : List Operand) : (p.respond m target args).Makes OutsideCall.IsLater := by
  rw [respond]
  split
  · refine p.callFallback_makes _ args fun token receiver arguments result other same => ?_
    cases same
  · refine Environment.invoke_makes _ target args fun answering result _ other same => ?_
    cases same

namespace Dispatcher

variable {d : Dispatcher} {options : Options} {unit : String} {methods : List Method}
  {env : Environment} {contract : Contract}

/-- No invocation calls the initializer of the base. -/
theorem Serves.invoke_later (serves : d.Serves options unit methods env contract) (steps : Nat)
    (token : Int32) (receiver arguments : Value) (w : World) :
    w.Adds (d.invoke steps token receiver arguments w).2 OutsideCall.IsLater := by
  obtain ⟨position, m, found, rfl⟩ | other := token_cases methods token
  · have makes := m.evaluate_makes env.hierarchy OutsideCall.IsLater (d.respond m)
      (fun target args _ _ => d.respond_later m target args) receiver arguments
    exact (serves.answers_method position m found receiver arguments).adds _ makes steps w
  · refine (serves.answers_other token other receiver arguments).adds _ ?_ steps w
    refine contract.runFallback_makes _ token receiver arguments fun result other same => ?_
    cases same

/-- What loading comes to when the initializer of the base ends this way. -/
def initialized (d : Dispatcher) : Except Fault Unit → Outcome LoadError Dispatcher
  | .ok _ => .done d
  | .error fault => .failed (.initializer fault)

/-- Loading a linked unit runs its initializer on a new object. -/
theorem load_of_yields (p : Program) {allowed : CallSite → Option Value → Prop}
    (init entry : Routine) (linked : p.linked = .ok (init, entry)) (w v : World)
    (result : Except Fault Unit)
    (yields : p.Yields allowed ⟨Program.initializerFrame init (w.heap.alloc p.unit.name).1, []⟩
      { w with heap := (w.heap.alloc p.unit.name).2 } (result.map fun _ => none) v) :
    ∃ d : Dispatcher, d.toProgram = p ∧ ∃ enough, ∀ steps,
      (enough ≤ steps → load steps p w = (d.initialized result, v)) ∧
      (steps < enough → ∃ u, load steps p w = (.exhausted, u) ∧ u.Before v) := by
  obtain ⟨enough, run⟩ := yields.run
  refine ⟨{ toProgram := p, self := (w.heap.alloc p.unit.name).1, entry := entry }, rfl, enough,
    fun steps => ⟨fun le => ?_, fun lt => ?_⟩⟩
  · have ran : p.runRoutine steps init [.ref (w.heap.alloc p.unit.name).1]
        { w with heap := (w.heap.alloc p.unit.name).2 } =
          (.ofExcept (result.map fun _ => none), v) := (run steps).1 le
    rw [load, linked]
    dsimp only
    rw [ran]
    cases result <;> rfl
  · obtain ⟨u, stopped, before⟩ := (run steps).2 lt
    have ran : p.runRoutine steps init [.ref (w.heap.alloc p.unit.name).1]
        { w with heap := (w.heap.alloc p.unit.name).2 } = (.exhausted, u) := stopped
    refine ⟨u, ?_, before⟩
    rw [load, linked]
    dsimp only
    rw [ran]

/-- A generated unit of another name than its base is refused for its base only. On the right base,
loading runs the initializer of the base once and nothing else outside, and ends as that does; no
invocation of what is loaded runs it again. -/
theorem generate_loads (options : Options) (unit : String) (methods : List Method)
    (index : TokenIndex) (u : CodeUnit)
    (generated : (generate options unit methods ({} : Assembler)).result = .ok (index, u))
    (other : unit ≠ options.base) (env : Environment) (contract : Contract) (w : World) :
    (contract.name ≠ options.base → ∀ steps, load steps ⟨u, env, contract⟩ w =
      (.failed (.baseMismatch unit contract.name options.base), w)) ∧
    (contract.name = options.base →
      ∃ (result : Except Fault Unit) (heap : Heap),
        contract.init (w.heap.alloc unit).2 = (result, heap) ∧
        ∃ d : Dispatcher, d.toProgram = ⟨u, env, contract⟩ ∧ ∃ enough, ∀ steps,
          (enough ≤ steps → load steps ⟨u, env, contract⟩ w =
            (d.initialized result, { heap := heap, calls := w.calls.push (.init result) })) ∧
          (steps < enough → ∃ v, load steps ⟨u, env, contract⟩ w = (.exhausted, v) ∧
            v.Before { heap := heap, calls := w.calls.push (.init result) })) ∧
    ∀ steps d v, load steps ⟨u, env, contract⟩ w = (.done d, v) →
      ∀ (more : Nat) (token : Int32) (receiver arguments : Value) (s : World),
        s.Adds (d.invoke more token receiver arguments s).2 OutsideCall.IsLater := by
  have lays := generate_lays options unit methods index u generated
  let p : Program := ⟨u, env, contract⟩
  refine ⟨fun mismatch steps => ?_, fun base => ?_, fun steps d v loaded => ?_⟩
  · have refuses : p.Refuses (.baseMismatch u.name contract.name u.base) :=
      .base (by rw [lays.base_eq]; exact mismatch.symm)
    rw [load, Program.linked_of_refuses _ refuses, lays.name_eq, lays.base_eq]
  · obtain ⟨init, entry, linked, code_eq, exported⟩ := CodeUnit.Lays.linked p lays base
    have site := lays.link?_initializer init exported
    rw [if_neg other] at site
    obtain ⟨d, same, enough, loads⟩ := load_of_yields p init entry linked w _ _
      (Program.Yields.initializer _ code_eq site _)
    rw [lays.name_eq] at loads
    exact ⟨_, _, rfl, d, same, enough, loads⟩
  · have serves := load_serves steps options unit methods ⟨u, env, contract⟩ lays w v d loaded
    exact serves.invoke_later

/-- On another base, and on its own. -/
theorem generate_loads_of_bases :
    ∃ index u, (generate {} "U" [] ({} : Assembler)).result = .ok (index, u) ∧
      load 0 ⟨u, {}, { Contract.rejecting with name := "Other" }⟩ {} =
        (.failed (.baseMismatch "U" "Other" Contract.defaultName), {}) ∧
      ∃ steps d v, load steps ⟨u, {}, .rejecting⟩ {} = (.done d, v) ∧
        v.calls = #[.init (.ok ())] ∧
        v.Adds (d.invoke 9 7 .null .null v).2 OutsideCall.IsLater := by
  obtain ⟨index, u, generated⟩ := generated_of_isOk {} "U" [] (by decide +kernel)
  have other : "U" ≠ ({} : Options).base := by decide +kernel
  obtain ⟨mismatch, -⟩ := generate_loads {} "U" [] index u generated other {}
    { Contract.rejecting with name := "Other" } {}
  obtain ⟨-, fits, later⟩ := generate_loads {} "U" [] index u generated other {} .rejecting {}
  obtain ⟨result, heap, init, d, -, enough, loads⟩ := fits rfl
  cases init
  have loaded := (loads enough).1 (Nat.le_refl enough)
  exact ⟨index, u, generated, mismatch (by decide +kernel) 0, enough, d, _, loaded, rfl,
    later enough d _ loaded 9 7 .null .null _⟩

end Dispatcher

end TokenDispatch
