import TokenDispatch.Proofs.GeneratedLoading
import TokenDispatch.Proofs.StackRuns
import TokenDispatch.Proofs.UnitContents

/-!
The frames of generated routines. A routine asks for as much stack as the most demanding of its
paths takes, and for the locals that its calls pass. So whatever loading and invoking come to, every
frame has all its locals and keeps its operands within the stack it asked for.
-/

namespace TokenDispatch

/-- The stack that a routine asks for is enough for all its paths, and one of them takes it all. -/
structure Routine.Tight (r : Routine) : Prop where
  depth_le : ∀ k d, r.Arrives k d → d ≤ r.maxStack
  attained : ∃ k, r.Arrives k r.maxStack

theorem Instr.targets_of_endsBlock {τ : Type} (i : Instr τ) (inside : i.endsBlock = false) :
    i.targets = [] := by
  cases i with
  | ret | retVoid | lookupSwitch _ _ | tableSwitch _ _ _ => cases inside
  | _ => rfl

namespace StackUse

variable {r : Routine} {is rest : List (Instr Nat)} {depth after peak k d : Nat}

/-- Without branches, a path goes through the code once, and takes no more than the code does. -/
theorem depth_le (use : StackUse r.code.toList 0 after peak)
    (straight : ∀ i ∈ r.code, i.targets = []) (arrives : r.Arrives k d) : d ≤ peak := by
  -- along the path, the code that is left uses no more than the whole
  have ahead : d ≤ peak ∧ ∃ left ≤ peak, StackUse (r.code.toList.drop k) d after left := by
    induction arrives with
    | start => exact ⟨Nat.zero_le _, peak, Nat.le_refl _, use⟩
    | @step k d j i _ here _ leads ih =>
        obtain ⟨-, left, le, ahead⟩ := ih
        obtain ⟨-, rfl⟩ | target := leads
        · obtain ⟨lt, rfl⟩ := Array.getElem?_eq_some_iff.mp here
          rw [List.drop_eq_getElem_cons (by rwa [Array.length_toList])] at ahead
          cases ahead with
          | @cons _ _ _ _ left _ ahead =>
              exact ⟨Nat.le_trans (Nat.le_max_left _ _) le, left,
                Nat.le_trans (Nat.le_max_right _ _) le, ahead⟩
        · rw [straight i (Array.mem_of_getElem? here)] at target
          cases target
  exact ahead.1

/-- A path through code within a block comes to the greatest depth of the code. -/
theorem attained (use : StackUse is depth after peak) (within : ∀ i ∈ is, i.endsBlock = false)
    (some_code : is ≠ []) (code : r.code.toList.drop k = is ++ rest)
    (arrives : r.Arrives k depth) : ∃ j, r.Arrives j peak := by
  induction use generalizing k with
  | nil depth => exact absurd rfl some_code
  | @cons i is depth after peak pops_le use ih =>
      obtain ⟨inside, within⟩ := List.forall_mem_cons.mp within
      have here : r.code[k]? = some i := by
        rw [← Array.getElem?_toList, ← List.head?_drop, code]
        rfl
      have next : r.code.toList.drop (k + 1) = is ++ rest := by
        rw [← List.tail_drop, code]
        rfl
      have arrives := arrives.step here pops_le (.inl ⟨inside, rfl⟩)
      cases is with
      | nil =>
          cases use
          rw [Nat.max_zero]
          exact ⟨k + 1, arrives⟩
      | cons next_i is =>
          obtain ⟨j, later⟩ := ih within (List.cons_ne_nil _ _) next arrives
          obtain le | le := Nat.le_total (i.depthAfter depth) peak
          · rw [Nat.max_eq_right le]
            exact ⟨j, later⟩
          · rw [Nat.max_eq_left le]
            exact ⟨k + 1, arrives⟩

/-- Code that ends in its only return asks for no more and no less than it uses. -/
theorem tight (last : Instr Nat) (code : r.code.toList = is ++ [last]) (plain : last.targets = [])
    (within : ∀ i ∈ is, i.endsBlock = false) (some_code : is ≠ [])
    (use : StackUse is 0 after r.maxStack) (returned : StackUse [last] after 0 0) : r.Tight where
  depth_le k d arrives := by
    have whole := use.append returned
    rw [Nat.max_zero, ← code] at whole
    refine whole.depth_le (fun i mem => ?_) arrives
    rw [← Array.mem_toList_iff, code, List.mem_append, List.mem_singleton] at mem
    obtain inside | rfl := mem
    · exact i.targets_of_endsBlock (within i inside)
    · exact plain
  attained := use.attained (k := 0) within some_code code .start

end StackUse

/-! The generated routines. -/

theorem initializerRoutine_tight (base : String) : (initializerRoutine base).Tight := by
  have call : StackUse [(.call (initializerSite base) : Instr Nat)] 1 0 0 :=
    .one (.call (initializerSite base) : Instr Nat) 1 (Nat.le_refl 1)
  have use : StackUse [(.loadLocal Slot.self : Instr Nat), .call (initializerSite base)] 0 0 1 :=
    .cons (i := (.loadLocal Slot.self : Instr Nat)) (Nat.zero_le 0) call
  exact use.tight .retVoid rfl rfl (by simp [Instr.endsBlock]) (List.cons_ne_nil _ _)
    (.one .retVoid 0 (Nat.le_refl 0))

theorem Method.routine_tight (m : Method) (callable : m.Callable) (name : String) :
    (m.routine name).Tight := by
  refine StackUse.tight .ret (m.code_eq) rfl (OpenRoutine.bodyCode_within m callable) ?_
    m.bodyCode_use (.one .ret 1 (Nat.le_refl 1))
  simp [Method.bodyCode]

theorem positionSwitch_targets {τ : Type} (form : SwitchForm) (default : τ)
    (cases : List (Int32 × τ)) :
    (positionSwitch form default cases).targets = default :: cases.map (·.2) := by
  rw [positionSwitch]
  split <;> rfl

/-- The switch of the entry point leads to the branches. -/
theorem entrySwitch_leads (form : SwitchForm) (count k j : Nat)
    (leads : (entrySwitch form count).LeadsTo k j) :
    ∃ position ≤ count, j = branchStart position := by
  obtain ⟨falls, -⟩ | target := leads
  · rw [entrySwitch, positionSwitch] at falls
    split at falls <;> cases falls
  · rw [entrySwitch, positionSwitch_targets] at target
    obtain rfl | target := List.mem_cons.mp target
    · exact ⟨count, Nat.le_refl _, rfl⟩
    · obtain ⟨c, among, rfl⟩ := List.mem_map.mp target
      obtain ⟨position, low, rfl⟩ := List.mem_map.mp among
      exact ⟨position, Nat.le_of_lt (List.mem_range.mp low), rfl⟩

theorem entrySwitch_depthAfter (form : SwitchForm) (count depth : Nat) :
    (entrySwitch form count).depthAfter depth = depth - 1 := by
  rw [entrySwitch, positionSwitch]
  split <;> rfl

section Entry

variable {form : SwitchForm} {unit : String} {routines : List String} {k j d : Nat}

/-- Every branch of the entry point makes a call of four operands, whose result it returns. -/
theorem entryRoutine_branch (position : Nat) (le : position ≤ routines.length) :
    ∃ site : CallSite, site.operands = 4 ∧ site.sig.returnsVoid = false ∧
      (entryRoutine form unit routines).CallsAt (branchStart position) site := by
  obtain rfl | lt := Nat.eq_or_lt_of_le le
  · exact ⟨_, rfl, rfl, entryRoutine_callsAt_fallback form unit routines⟩
  · exact ⟨_, rfl, rfl, entryRoutine_callsAt_routine form unit routines position lt⟩

/-- The operands are loaded one by one, and each branch starts with all but the one that the switch
took. -/
theorem entryRoutine_depth (arrives : (entryRoutine form unit routines).Arrives k d) :
    k ≤ switchPosition ∧ d = k ∨
      ∃ position ≤ routines.length, k = branchStart position ∧ d = 4 ∨
        k = branchStart position + 1 ∧ d = 1 := by
  induction arrives with
  | start => exact .inl ⟨Nat.zero_le _, rfl⟩
  | @step k d j i _ here _ leads ih =>
      -- the path stands at the switch or before it, at the call of a branch, or at its return
      obtain ⟨le, rfl⟩ | ⟨position, low, ⟨rfl, rfl⟩ | ⟨rfl, rfl⟩⟩ := ih
      · obtain rfl | lt := Nat.eq_or_lt_of_le le
        · have switch : i = entrySwitch form routines.length := (Option.some.inj here).symm
          subst switch
          obtain ⟨position, low, rfl⟩ := entrySwitch_leads form _ _ j leads
          exact .inr ⟨position, low, .inl ⟨rfl, entrySwitch_depthAfter form _ _⟩⟩
        · have load : (entryCode form unit routines)[d]? = some i := by
            rw [← List.getElem?_toArray]
            exact here
          obtain ⟨slot, rfl⟩ := entryCode_load form unit routines d i lt load
          obtain ⟨-, rfl⟩ | target := leads
          · exact .inl ⟨lt, rfl⟩
          · cases target
      · obtain ⟨site, operands, value, calls⟩ := entryRoutine_branch position low
        cases calls.1.symm.trans here
        obtain ⟨-, rfl⟩ | target := leads
        · refine .inr ⟨position, low, .inr ⟨rfl, ?_⟩⟩
          change 4 - site.operands + (if site.sig.returnsVoid then 0 else 1) = 1
          rw [operands, value]
          rfl
        · cases target
      · obtain ⟨site, -, -, calls⟩ := entryRoutine_branch position low
        cases calls.2.symm.trans here
        obtain ⟨falls, -⟩ | target := leads
        · cases falls
        · cases target

theorem entryRoutine_tight : (entryRoutine form unit routines).Tight where
  depth_le k d arrives := by
    change d ≤ 5
    obtain ⟨le, rfl⟩ | ⟨position, -, ⟨-, rfl⟩ | ⟨-, rfl⟩⟩ := entryRoutine_depth arrives
    · exact le
    · decide
    · decide
  attained :=
    have within : ∀ i ∈ (entryLoads : List (Instr Nat)), i.endsBlock = false := by
      simp [entryLoads, Instr.endsBlock]
    entryLoads_use.attained (k := 0) within (List.cons_ne_nil _ _) rfl .start

end Entry

/-! Locals. -/

/-- Every call that leads to a routine of the unit passes the locals that the routine asks for. -/
def CodeUnit.Supplies (u : CodeUnit) : Prop :=
  ∀ r ∈ u.routines, ∀ site ∈ r.sites, ∀ callee, u.link? site = some (.routine callee) →
    callee.maxLocals = site.sig.params.length + 1

/-- A frame of a routine of the unit, with all locals that the routine asks for. -/
structure Frame.Supplied (u : CodeUnit) (f : Frame) : Prop where
  mem : f.routine ∈ u.routines
  locals_length : f.locals.length = f.routine.maxLocals

/-- Such a frame, with no more operands than it has room for. -/
structure Frame.Fits (u : CodeUnit) (f : Frame) : Prop extends f.Supplied u where
  stack_le : f.stack.length ≤ f.routine.maxStack

namespace Program

variable {p : Program}

theorem keeps_supplied (supplies : p.unit.Supplies) :
    p.Keeps (Frame.Supplied p.unit) (·.frame.Supplied p.unit) where
  exec f g i supplied _ within ok := by
    obtain ⟨position, stack, rfl⟩ := f.next.exec_eq _ g i within ok
    exact ⟨supplied.mem, supplied.locals_length⟩
  call f g site supplied _ taken := by
    obtain ⟨stack, rfl, -⟩ := taken
    exact ⟨supplied.mem, supplied.locals_length⟩
  enter f site r receiver args supplied here enough linked := by
    have found := (p.unit.find?_of_link? site r linked).2.2
    refine ⟨Array.mem_of_find?_eq_some found, ?_⟩
    have called := Routine.mem_sites_of_call f.routine f.position site here
    rw [supplies f.routine supplied.mem site called r linked, List.length_cons, enough]
  receive caller g result supplied ok := by
    obtain ⟨stack, rfl⟩ := caller.frame.receive_eq g caller.site result ok
    exact ⟨supplied.mem, supplied.locals_length⟩

/-- Whether all frames fit that a routine comes to when it runs on these locals. -/
def FramesFit (p : Program) (r : Routine) (locals : List Operand) : Prop :=
  ∀ c, Relation.ReflTransGen p.Goes ⟨{ routine := r, locals := locals }, []⟩ c →
    c.Meets (Frame.Fits p.unit) (·.frame.Fits p.unit)

/-- Where calls pass all locals and every routine has room for its paths, all frames fit. -/
theorem framesFit (supplies : p.unit.Supplies) (tight : ∀ r ∈ p.unit.routines, r.Tight)
    (r : Routine) (mem : r ∈ p.unit.routines) (locals : List Operand)
    (enough : locals.length = r.maxLocals) : p.FramesFit r locals := by
  intro c run
  have supplied := (keeps_supplied supplies).goes (.alone ⟨mem, enough⟩) run
  have on_path := goes_onPath _ c (.start r locals) run
  refine ⟨⟨supplied.frame, ?_⟩, fun caller waiting => ⟨supplied.callers caller waiting, ?_⟩⟩
  · exact (tight _ supplied.frame.mem).depth_le _ _ on_path.frame
  · obtain ⟨k, depth, arrives, -, -, rfl⟩ := on_path.callers caller waiting
    have room := (tight _ (supplied.callers caller waiting).mem).depth_le _ _ arrives
    exact Nat.le_of_add_right_le room

end Program

/-! Generated units. -/

section Generated

variable {options : Options} {unit : String} {methods : List Method}

theorem generatedUnit_cases (r : Routine)
    (mem : r ∈ (generatedUnit options unit methods).routines) :
    r = initializerRoutine options.base ∨
      r = entryRoutine options.form unit
        ((List.range methods.length).map (routineName options.stem)) ∨
      ∃ m ∈ methods, ∃ name, r = m.routine name := by
  rw [← Array.mem_toList_iff, generatedUnit_toList, List.mem_cons, List.mem_cons] at mem
  obtain rfl | rfl | arm := mem
  · exact .inl rfl
  · exact .inr (.inl rfl)
  · obtain ⟨⟨m, position⟩, among, rfl⟩ := List.mem_map.mp arm
    exact .inr (.inr ⟨m, List.fst_mem_of_mem_zipIdx among, _, rfl⟩)

theorem generatedUnit_tight (callable : ∀ m ∈ methods, m.Callable) (r : Routine)
    (mem : r ∈ (generatedUnit options unit methods).routines) : r.Tight := by
  obtain rfl | rfl | ⟨m, among, name, rfl⟩ := generatedUnit_cases r mem
  · exact initializerRoutine_tight options.base
  · exact entryRoutine_tight
  · exact m.routine_tight (callable m among) name

/-- A routine has a local for each parameter and one for the object. -/
theorem generatedUnit_locals (r : Routine)
    (mem : r ∈ (generatedUnit options unit methods).routines) :
    r.maxLocals = r.sig.params.length + 1 ∧ r.sig.Delimited := by
  obtain rfl | rfl | ⟨m, -, name, rfl⟩ := generatedUnit_cases r mem
  · exact ⟨rfl, Signature.initializer_delimited⟩
  · exact ⟨rfl, Signature.dispatch_delimited⟩
  · exact ⟨rfl, Signature.dispatch_delimited⟩

/-- The special calls of a generated unit have the signatures of its routines. -/
theorem generatedUnit_special (callable : ∀ m ∈ methods, m.Callable) (r : Routine)
    (mem : r ∈ (generatedUnit options unit methods).routines) (site : CallSite)
    (called : site ∈ r.sites) (special : site.kind = .special) :
    site.descriptor = site.sig.descriptor ∧ site.sig.Delimited := by
  obtain rfl | rfl | ⟨m, among, name, rfl⟩ := generatedUnit_cases r mem
  · cases List.mem_singleton.mp called
    exact ⟨rfl, Signature.initializer_delimited⟩
  · change site ∈ (entryCode _ _ _).filterMap Instr.site? at called
    rw [entryCode_sites, List.mem_append] at called
    obtain branch | fallback := called
    · obtain ⟨routine, -, rfl⟩ := List.mem_map.mp branch
      exact ⟨rfl, Signature.dispatch_delimited⟩
    · cases List.mem_singleton.mp fallback
      cases special
  · change site ∈ m.code.filterMap Instr.site? at called
    rw [m.code_sites (callable m among)] at called
    cases List.mem_singleton.mp called
    exact absurd special m.site_kind

/-- A routine that answers to a signature has the locals that the signature asks for. -/
theorem generatedUnit_found (name : String) (sig : Signature) (delimited : sig.Delimited)
    (r : Routine)
    (found : (generatedUnit options unit methods).find? name sig.descriptor = some r) :
    r.maxLocals = sig.params.length + 1 := by
  have mem := Array.mem_of_find?_eq_some found
  obtain ⟨locals, own_delimited⟩ := generatedUnit_locals r mem
  have answers := Array.find?_some found
  rw [Routine.answersTo, Bool.and_eq_true, beq_iff_eq, beq_iff_eq] at answers
  have text := (generatedUnit_descriptors options unit methods r mem).symm.trans answers.2
  rw [locals, r.sig.eq_of_descriptor sig own_delimited delimited text]

theorem generatedUnit_supplies (callable : ∀ m ∈ methods, m.Callable) :
    (generatedUnit options unit methods).Supplies := by
  intro r mem site called callee linked
  obtain ⟨special, -, found⟩ := CodeUnit.find?_of_link? _ site callee linked
  obtain ⟨text, delimited⟩ := generatedUnit_special callable r mem site called special
  rw [text] at found
  exact generatedUnit_found site.name site.sig delimited callee found

theorem generatedUnit_frames :
    (generatedUnit options unit methods).routines.toList.map
        (fun r => (r.name, r.maxStack, r.maxLocals)) =
      (RoutineName.initializer, 1, 1) :: (RoutineName.entry, 5, 4) ::
        methods.zipIdx.map fun arm =>
          (routineName options.stem arm.2, arm.1.peak, 4) := by
  rw [generatedUnit_toList, List.map_cons, List.map_cons, List.map_map]
  rfl

theorem Program.generated_framesFit (p : Program)
    (unit_eq : p.unit = generatedUnit options unit methods) (callable : ∀ m ∈ methods, m.Callable)
    (name : String) (sig : Signature) (delimited : sig.Delimited) (r : Routine)
    (found : p.unit.find? name sig.descriptor = some r) (locals : List Operand)
    (enough : locals.length = sig.params.length + 1) : p.FramesFit r locals := by
  have supplies : p.unit.Supplies := unit_eq ▸ generatedUnit_supplies callable
  have tight : ∀ r ∈ p.unit.routines, r.Tight := unit_eq ▸ generatedUnit_tight callable
  have mem := Array.mem_of_find?_eq_some found
  rw [unit_eq] at found
  have asked := generatedUnit_found name sig delimited r found
  exact framesFit supplies tight r mem locals (enough.trans asked.symm)

end Generated

/-- The frames of a generated unit are recorded as they are: one operand and one local for the
initializer, five and four for the entry point, and four locals for the routine of a method, with
room for its result or for the operands of its call and one more. Paths through these routines take
that much of the stack, and no more; so in all that loading and invoking come to, every frame has
these locals, and its operands within this stack. -/
theorem generate_frames (options : Options) (unit : String) (methods : List Method)
    (index : TokenIndex) (u : CodeUnit)
    (generated : (generate options unit methods ({} : Assembler)).result = .ok (index, u)) :
    (u.routines.toList.map fun r => (r.name, r.maxStack, r.maxLocals)) =
      (RoutineName.initializer, 1, 1) :: (RoutineName.entry, 5, 4) ::
        methods.zipIdx.map (fun arm =>
          (routineName options.stem arm.2,
            if arm.1.params.length = 0 then 1
            else arm.1.params.length + 1 + if arm.1.shape = .static then 0 else 1,
            4)) ∧
    (∀ r ∈ u.routines, r.Tight) ∧
    ∀ p : Program, p.unit = u →
      (∀ init entry, p.linked = .ok (init, entry) → ∀ self, p.FramesFit init [.ref self]) ∧
      ∀ steps w d v, Dispatcher.load steps p w = (.done d, v) → d.toProgram = p ∧
        ∀ token receiver arguments,
          d.FramesFit d.entry [.ref d.self, .int token, .ref receiver, .ref arguments] := by
  have callable := (generate_lays options unit methods index u generated).callable
  obtain ⟨-, rfl⟩ := generate_eq options unit methods index u generated
  refine ⟨?_, generatedUnit_tight callable, fun p unit_eq => ⟨?_, ?_⟩⟩
  · rw [generatedUnit_frames]
    simp only [Method.peak, Method.site_operands, Nat.add_right_comm]
  · intro init entry linked self
    have found := (Dispatcher.linked_ok p init entry linked).2.1
    exact p.generated_framesFit unit_eq callable _ _ Signature.initializer_delimited init found
      _ rfl
  · intro steps w d v loaded
    obtain ⟨same, init, linked⟩ := Dispatcher.load_done steps p w v d loaded
    have found := (Dispatcher.linked_ok p init d.entry linked).2.2
    rw [same]
    exact ⟨rfl, fun token receiver arguments => p.generated_framesFit unit_eq callable _ _
      Signature.dispatch_delimited d.entry found _ rfl⟩

/-! A method that is called on a string, with two numbers. -/

def substringMethod : Method :=
  { name := "substring"
    declaring := .named ClassName.string
    params := [.prim .int, .prim .int]
    ret := .named ClassName.string }

def substringDispatcher : Dispatcher where
  unit := generatedUnit {} "U" [substringMethod]
  env := {}
  contract := .rejecting
  self := .object 0 "U"
  entry := entryRoutine .auto "U" [routineName "m" 0]

/-- A frame with the receiver, the first number, the array and the index of the second number on
its stack. -/
def substringConfig : Config :=
  substringDispatcher.advance 15
    (Program.entryStart substringDispatcher.entry (.object 0 "U") 1 (.string "text")
      (.array [.boxed (.int 1), .boxed (.int 3)])) {}

/-- The frames of one method, and an invocation on its way to the call of the method. -/
theorem generate_frames_of_substring :
    ∃ index u, (generate {} "U" [substringMethod] ({} : Assembler)).result = .ok (index, u) ∧
      (u.routines.toList.map fun r => (r.name, r.maxStack, r.maxLocals)) =
        [("<init>", 1, 1), ("invoke", 5, 4), (routineName "m" 0, 4, 4)] ∧
      ∃ v, Dispatcher.load 4 ⟨u, {}, .rejecting⟩ {} = (.done substringDispatcher, v) ∧
        substringConfig.callers.length = 1 ∧ substringConfig.frame.stack.length = 4 ∧
        substringConfig.Meets (Frame.Fits u) (·.frame.Fits u) := by
  obtain ⟨index, u, generated⟩ := generated_of_isOk {} "U" [substringMethod] (by decide +kernel)
  obtain ⟨-, unit_eq⟩ := generate_eq {} "U" [substringMethod] index u generated
  obtain ⟨sizes, -, frames⟩ := generate_frames {} "U" [substringMethod] index u generated
  obtain ⟨-, invoked⟩ := frames ⟨u, {}, .rejecting⟩ rfl
  subst unit_eq
  have loaded : Dispatcher.load 4 substringDispatcher.toProgram {} =
    (.done substringDispatcher, _) := rfl
  obtain ⟨-, fit⟩ := invoked 4 {} substringDispatcher _ loaded
  exact ⟨index, _, generated, sizes, _, loaded, rfl, rfl,
    fit 1 (.string "text") (.array [.boxed (.int 1), .boxed (.int 3)]) substringConfig
      (substringDispatcher.goes_advance 15 _ {})⟩

end TokenDispatch
