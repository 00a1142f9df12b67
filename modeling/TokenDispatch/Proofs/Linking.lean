import TokenDispatch.Proofs.Refinement

/-!
Where the calls of a generated unit lead. The routine of a method makes one call, which goes outside
unless the base captures it; the initializer makes one call too, which leads to the base unless the
unit is named like its base. In such a unit the initializer calls itself, and no run of it ends.
-/

namespace TokenDispatch

variable {τ : Type}

def Instr.site? : Instr τ → Option CallSite
  | call site => some site
  | _ => none

/-- The call sites of a routine, in the order of its code. -/
def Routine.sites (r : Routine) : List CallSite := r.code.toList.filterMap Instr.site?

/-! Call sites of generated code. -/

/-- The code of a method makes exactly one call, that of the method. -/
theorem Method.code_sites (m : Method) (callable : m.Callable) :
    (m.code : List (Instr τ)).filterMap Instr.site? = [m.site] := by
  have operands : (m.receiverCode ++ elementsCode m.params 0 : List (Instr τ)).filterMap
      Instr.site? = [] := by
    refine List.filterMap_eq_nil_iff.mpr fun i mem => ?_
    cases m.operandsCode_loads callable i mem <;> rfl
  have reference : (m.ret.referenceCode : List (Instr τ)).filterMap Instr.site? = [] := by
    cases m.ret <;> rfl
  rw [code]
  simp only [List.filterMap_append] at operands ⊢
  rw [operands, reference]
  rfl

/-- Every site of a routine is that of a call somewhere in its code. -/
theorem Routine.call_of_mem_sites (r : Routine) (site : CallSite) (mem : site ∈ r.sites) :
    ∃ position : Nat, r.code[position]? = some (.call site) := by
  obtain ⟨i, mem, same⟩ := List.mem_filterMap.mp mem
  cases i with
  | call _ =>
      cases same
      exact Array.getElem?_of_mem (Array.mem_toList_iff.mp mem)
  | _ => cases same

theorem Routine.mem_sites_of_call (r : Routine) (position : Nat) (site : CallSite)
    (here : r.code[position]? = some (.call site)) : site ∈ r.sites :=
  List.mem_filterMap.mpr ⟨.call site, Array.mem_toList_iff.mpr (Array.mem_of_getElem? here), rfl⟩

namespace CodeUnit.Lays

variable {u : CodeUnit} {options : Options} {unit : String} {methods : List Method}

theorem exported?_of_holds (lays : u.Lays options unit methods) {k : Nat} {r : Routine}
    {name : String} {sig : Signature} {code : List (Instr Nat)} (get : u.routines[k]? = some r)
    (holds : r.Holds .exported name sig code) : u.exported? name sig = some r := by
  rw [exported?, lays.find?_of_holds get holds, Option.filter_some, holds.access_eq]
  rfl

/-- The initializer is found by its name, and callers from outside can rely on it. -/
theorem exports_initializer (lays : u.Lays options unit methods) :
    ∃ init : Routine, u.exported? RoutineName.initializer .initializer = some init ∧
      init.code.toList = initializerCode options.base := by
  obtain ⟨init, get, holds⟩ := lays.initializer
  exact ⟨init, lays.exported?_of_holds get holds, holds.code_eq⟩

/-- The initializer of the base is meant, but a routine of the unit itself comes first. -/
theorem link?_initializer (lays : u.Lays options unit methods) (init : Routine)
    (exported : u.exported? RoutineName.initializer .initializer = some init) :
    u.link? (initializerSite options.base) =
      if unit = options.base then some (.routine init) else some .initializer := by
  have found : u.find? RoutineName.initializer Signature.initializer.descriptor = some init :=
    (Option.filter_eq_some_iff.mp exported).1
  have named : namesInitializer (initializerSite options.base) = true := rfl
  have inherited : inherited? (initializerSite options.base) = some .initializer := if_pos named
  unfold link?
  simp only [initializerSite] at inherited ⊢
  rw [lays.name_eq, lays.base_eq, inherited]
  by_cases same : unit = options.base
  · subst same
    simp [found]
  · have other : (options.base == unit) = false := by simpa using fun eq => same eq.symm
    simp [other, same]

end CodeUnit.Lays

/-! Runs of the initializer. -/

namespace Program

variable (p : Program)

/-- A machine that only ever gets from one of these configurations to another does not end. -/
theorem run_exhausted (w : World) (among : Config → Prop)
    (goes_on : ∀ c, among c → ∃ d, p.step c w = (.next d, w) ∧ among d) (steps : Nat) (c : Config)
    (start : among c) : p.run steps c w = (.exhausted, w) := by
  induction steps generalizing c with
  | zero => rfl
  | succ steps ih =>
      obtain ⟨d, step, again⟩ := goes_on c start
      simp only [run, step]
      exact ih d again

theorem runInit_eq (w : World) :
    (p.contract.runInit *> pure none : Exec (Option Operand)) w =
      ((p.contract.runInit w).1.map fun _ => none, (p.contract.runInit w).2) := by
  rw [← Exec.map_apply]
  rfl

variable {p : Program} {init : Routine} {base : String} (self : Value)

/-- The frame of an initializer, at its first instruction. -/
def initializerFrame (init : Routine) (self : Value) : Frame :=
  { routine := init, locals := [.ref self] }

/-- The initializer loads its object, whoever waits for it. -/
theorem step_initializer_load (code_eq : init.code.toList = initializerCode base)
    (callers : List Caller) (w : World) :
    p.step ⟨initializerFrame init self, callers⟩ w =
      (.next ⟨(initializerFrame init self).advance 1 [.ref self], callers⟩, w) := by
  have here : (initializerFrame init self).rest = initializerCode base := code_eq
  obtain ⟨at_load, -⟩ := Frame.code_eq_of_rest _ _ _ here
  exact step_local _ rfl _ callers at_load w

/-- Its call goes where the site is linked to. -/
theorem step_initializer_call (code_eq : init.code.toList = initializerCode base)
    (callers : List Caller) (w : World) :
    p.step ⟨(initializerFrame init self).advance 1 [.ref self], callers⟩ w =
      p.enter (initializerSite base) (some self) []
        ((initializerFrame init self).advance 2 []) callers w := by
  let f := (initializerFrame init self).advance 1 [.ref self]
  have here : f.rest = [.call (initializerSite base), .retVoid] := by
    rw [Frame.rest_advance]
    exact congrArg (List.drop 1) code_eq
  obtain ⟨at_call, -⟩ := f.code_eq_of_rest _ _ here
  rw [step_call _ f callers at_call]
  exact p.call_laid (initializerSite base) f.next callers (some self) [] [] rfl rfl rfl w

/-- Linked to the base, the initializer asks for nothing outside of the unit. -/
theorem asksOnly_initializer (code_eq : init.code.toList = initializerCode base)
    (linked : p.unit.link? (initializerSite base) = some .initializer) (c : Config)
    (here : c.frame.routine = init) : p.AsksOnly (fun _ _ => False) c := by
  intro site receiver asks
  obtain ⟨called, unlinked, -⟩ := asks
  have mem := Array.mem_toList_iff.mpr (Array.mem_of_getElem? called)
  rw [here, code_eq] at mem
  have same : site = initializerSite base := by simpa [initializerCode] using mem
  rw [same, linked] at unlinked
  cases unlinked

/-- It does what the initializer of the base does, and nothing else. -/
theorem Yields.initializer (code_eq : init.code.toList = initializerCode base)
    (linked : p.unit.link? (initializerSite base) = some .initializer) (w : World) :
    p.Yields (fun _ _ => False) ⟨initializerFrame init self, []⟩ w
      ((p.contract.runInit w).1.map fun _ => none) (p.contract.runInit w).2 := by
  have asks := asksOnly_initializer code_eq linked
  refine .next (asks _ rfl) (step_initializer_load self code_eq [] w) ?_
  have called := step_initializer_call (p := p) self code_eq [] w
  rw [enter, linked] at called
  dsimp only at called
  rw [answer, p.runInit_eq] at called
  rcases outcome : p.contract.runInit w with ⟨fault | _, u⟩
  · rw [outcome] at called
    exact .failed (asks _ rfl) called
  · rw [outcome] at called
    refine .next (asks _ rfl) called (.returned (asks _ rfl) ?_)
    let g := (initializerFrame init self).advance 2 []
    have here : g.rest = [.retVoid] := by
      rw [Frame.rest_advance]
      exact congrArg (List.drop 2) code_eq
    obtain ⟨at_ret, -⟩ := g.code_eq_of_rest _ _ here
    rw [step_retVoid g [] at_ret]
    rfl

/-- Linked to itself, it never ends. -/
theorem run_initializer_of_own (code_eq : init.code.toList = initializerCode base)
    (linked : p.unit.link? (initializerSite base) = some (.routine init)) (steps : Nat)
    (w : World) : p.runRoutine steps init [.ref self] w = (.exhausted, w) := by
  let start := initializerFrame init self
  refine p.run_exhausted w (fun c => ∃ callers, c = ⟨start, callers⟩ ∨
    c = ⟨start.advance 1 [.ref self], callers⟩) ?_ steps _ ⟨[], .inl rfl⟩
  intro c among
  obtain ⟨callers, rfl | rfl⟩ := among
  · exact ⟨_, step_initializer_load self code_eq callers w, callers, .inr rfl⟩
  · let waiting : Caller := ⟨start.advance 2 [], initializerSite base⟩
    refine ⟨⟨start, waiting :: callers⟩, ?_, waiting :: callers, .inl rfl⟩
    rw [step_initializer_call self code_eq, enter, linked]
    rfl

end Program

/-! Generated units. -/

/-- The routine of a method makes one call. It goes outside, with the operands of the method, except
where the base captures the method; then its fallback takes the call. -/
theorem generate_method_call (options : Options) (unit : String) (methods : List Method)
    (index : TokenIndex) (u : CodeUnit)
    (generated : (generate options unit methods ({} : Assembler)).result = .ok (index, u))
    (position : Nat) (m : Method) (found : methods[position]? = some m) :
    ∃ r : Routine, u.routines[2 + position]? = some r ∧ r.sites = [m.site] ∧
      u.link? m.site = (if m.Captured unit options.base then some .fallback else none) ∧
      ∀ (p : Program) (f : Frame) (callers : List Caller) (target : Option Value)
        (args rest : List Operand) (w : World), p.unit = u → f.routine = r →
        r.code[f.position]? = some (.call m.site) → f.stack = Frame.laid target args ++ rest →
        args.length = m.params.length → (target = none ↔ m.shape = .static) →
        p.step ⟨f, callers⟩ w =
          Program.answer
            (if m.Captured unit options.base then p.callFallback args
              else p.env.invoke m target args)
            (f.advance 1 rest) m.site callers w := by
  have lays := generate_lays options unit methods index u generated
  obtain ⟨r, get, holds⟩ := lays.routine position m found
  have sites : r.sites = [m.site] := by
    rw [Routine.sites, holds.code_eq, m.code_sites (lays.callable m (List.mem_of_getElem? found))]
  refine ⟨r, get, sites, ?_, ?_⟩
  · rw [u.link?_site m, lays.name_eq, lays.base_eq]
  · intro p f callers target args rest w unit_eq routine_eq at_call stack count shape
    subst unit_eq routine_eq
    rw [p.step_site m f callers target args rest at_call stack count shape w, Program.respond,
      lays.name_eq, lays.base_eq]

/-- A method of the base that the base captures, although its receiver is null. -/
theorem generate_method_call_of_captured :
    ∃ index u, (generate {} "U" [Dispatcher.capturedMethod] ({} : Assembler)).result =
        .ok (index, u) ∧
      ∃ (r : Routine) (f : Frame), u.routines[2]? = some r ∧ f.routine = r ∧
        r.sites = [Dispatcher.capturedMethod.site] ∧
        u.link? Dispatcher.capturedMethod.site = some .fallback ∧
        Program.step ⟨u, {}, .rejecting⟩ ⟨f, []⟩ {} =
          Program.answer
            (Program.callFallback ⟨u, {}, .rejecting⟩ [.int 7, .ref .null, .ref .null])
            (f.advance 1 []) Dispatcher.capturedMethod.site [] {} := by
  obtain ⟨index, u, generated⟩ :=
    generated_of_isOk {} "U" [Dispatcher.capturedMethod] (by decide +kernel)
  have call := generate_method_call _ _ _ index u generated 0 _ rfl
  obtain ⟨r, get, sites, linked, step⟩ := call
  obtain ⟨position, at_call⟩ := r.call_of_mem_sites Dispatcher.capturedMethod.site
    (by rw [sites]; exact .head _)
  let args : List Operand := [.int 7, .ref .null, .ref .null]
  let f : Frame :=
    { routine := r
      position := position
      locals := []
      stack := Frame.laid (some .null) args }
  rw [if_pos (by decide +kernel)] at linked
  refine ⟨index, u, generated, r, f, get, rfl, sites, linked, ?_⟩
  have stepped := step ⟨u, {}, .rejecting⟩ f [] (some .null) args [] {} rfl rfl at_call rfl rfl
    (by decide)
  rw [if_pos (by decide +kernel)] at stepped
  exact stepped

/-- The initializer makes one call, which is meant for the base. Unless the unit is named like its
base, that is where it leads: the base's own runs once, and the initializer ends as it does. In a
unit of that name the initializer calls itself, for ever. -/
theorem generate_initializer_run (options : Options) (unit : String) (methods : List Method)
    (index : TokenIndex) (u : CodeUnit)
    (generated : (generate options unit methods ({} : Assembler)).result = .ok (index, u)) :
    ∃ init : Routine, u.exported? RoutineName.initializer .initializer = some init ∧
      init.sites = [initializerSite options.base] ∧
      u.link? (initializerSite options.base) =
        (if unit = options.base then some (.routine init) else some .initializer) ∧
      ∀ (p : Program) (self : Value) (w : World), p.unit = u →
        (unit ≠ options.base → ∃ enough, ∀ steps ≥ enough,
          p.runRoutine steps init [.ref self] w =
            (.ofExcept ((p.contract.init w.heap).1.map fun _ => none),
              { heap := (p.contract.init w.heap).2
                calls := w.calls.push (.init (p.contract.init w.heap).1) })) ∧
        (unit = options.base → ∀ steps,
          p.runRoutine steps init [.ref self] w = (.exhausted, w)) := by
  have lays := generate_lays options unit methods index u generated
  obtain ⟨init, exported, code_eq⟩ := lays.exports_initializer
  have linked := lays.link?_initializer init exported
  refine ⟨init, exported, congrArg (List.filterMap Instr.site?) code_eq, linked, ?_⟩
  intro p self w unit_eq
  subst unit_eq
  constructor
  · intro other
    rw [if_neg other] at linked
    obtain ⟨enough, run⟩ := (Program.Yields.initializer self code_eq linked w).run
    exact ⟨enough, fun steps le => (run steps).1 le⟩
  · intro same steps
    rw [if_pos same] at linked
    exact Program.run_initializer_of_own self code_eq linked steps w

/-- On the same base, a unit of another name is initialized and one of its name never is. -/
theorem generate_initializer_run_of_names :
    (∃ index u, (generate {} "U" [] ({} : Assembler)).result = .ok (index, u) ∧
      ∃ init, u.link? (initializerSite Contract.defaultName) = some .initializer ∧
        ∃ enough, ∀ steps ≥ enough,
          Program.runRoutine ⟨u, {}, .rejecting⟩ steps init [.ref .null] {} =
            (.done none, { calls := #[.init (.ok ())] })) ∧
    ∃ index u, (generate {} Contract.defaultName [] ({} : Assembler)).result = .ok (index, u) ∧
      ∃ init, u.link? (initializerSite Contract.defaultName) = some (.routine init) ∧
        ∀ steps, Program.runRoutine ⟨u, {}, .rejecting⟩ steps init [.ref .null] {} =
          (.exhausted, {}) := by
  constructor
  · obtain ⟨index, u, generated⟩ := generated_of_isOk {} "U" [] (by decide +kernel)
    obtain ⟨init, -, -, linked, run⟩ := generate_initializer_run _ _ _ index u generated
    have other : "U" ≠ ({} : Options).base := by decide +kernel
    rw [if_neg other] at linked
    exact ⟨index, u, generated, init, linked, (run ⟨u, {}, .rejecting⟩ .null {} rfl).1 other⟩
  · obtain ⟨index, u, generated⟩ :=
      generated_of_isOk {} Contract.defaultName [] (by decide +kernel)
    obtain ⟨init, -, -, linked, run⟩ := generate_initializer_run _ _ _ index u generated
    rw [if_pos rfl] at linked
    exact ⟨index, u, generated, init, linked, (run ⟨u, {}, .rejecting⟩ .null {} rfl).2 rfl⟩

end TokenDispatch
