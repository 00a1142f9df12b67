import TokenDispatch.Proofs.Acceptance
import TokenDispatch.Proofs.EntryRun

/-!
The generated unit as a value. Generation has no freedom: names, signatures, code and frame sizes of
all routines are fixed by the options, the name of the unit and the list of methods, and the form of
the switch decides about one instruction of the entry point only.
-/

namespace TokenDispatch

open Script

/-- A routine is what it holds, and the frame it needs. -/
theorem Routine.Holds.eq_mk {r : Routine} {access : Access} {name : String} {sig : Signature}
    {code : List (Instr Nat)} (holds : r.Holds access name sig code) :
    r = { access, name, sig, descriptor := sig.descriptor, code := code.toArray,
          maxStack := r.maxStack, maxLocals := r.maxLocals } := by
  obtain ⟨rfl, rfl, rfl, descriptor, rfl⟩ := holds
  rw [← descriptor]

/-! The routines. -/

def initializerRoutine (base : String) : Routine where
  access := .exported
  name := RoutineName.initializer
  sig := .initializer
  descriptor := Signature.initializer.descriptor
  code := (initializerCode base).toArray
  maxStack := 1
  maxLocals := 1

def entryRoutine (form : SwitchForm) (unit : String) (routines : List String) : Routine where
  access := .exported
  name := RoutineName.entry
  sig := .dispatch
  descriptor := Signature.dispatch.descriptor
  code := (entryCode form unit routines).toArray
  maxStack := 5
  maxLocals := 4

def Method.routine (m : Method) (name : String) : Routine where
  access := .internal
  name := name
  sig := .dispatch
  descriptor := Signature.dispatch.descriptor
  code := m.code.toArray
  maxStack := m.peak
  maxLocals := 4

/-- The unit of a list of methods. -/
def generatedUnit (options : Options) (unit : String) (methods : List Method) : CodeUnit where
  name := unit
  base := options.base
  routines :=
    #[initializerRoutine options.base,
      entryRoutine options.form unit
        ((List.range methods.length).map (routineName options.stem))] ++
      methods.zipIdx.map fun (m, position) => m.routine (routineName options.stem position)

/-- A routine without labels is written as it was asked for. -/
theorem follow_routine_writes (access : Access) (name : String) (sig : Signature)
    (ds : List (Directive Label)) (plain : ∀ d ∈ ds, (d.instr? : Option (Instr Label)).isSome)
    (a a' : Assembler)
    (h : Succeeds (follow ([.beginRoutine access name sig] ++ ds ++ [.endRoutine])) a () a') :
    a' = { a with
      routines := a.routines.push
        { access, name, sig
          descriptor := sig.descriptor
          code := (ds.filterMap Directive.instr?).toArray
          maxStack := ((OpenRoutine.start access name sig).afterAll
            (ds.filterMap Directive.instr?)).maxStack
          maxLocals := ((OpenRoutine.start access name sig).afterAll
            (ds.filterMap Directive.instr?)).maxLocals }
      current := none } := by
  obtain ⟨-, -, -, -, rfl⟩ := (follow_routine_iff access name sig ds plain a a').mp h
  let last := (OpenRoutine.start access name sig).afterAll (ds.filterMap Directive.instr?)
  have code : last.code.toList.map (Instr.map last.position) = ds.filterMap Directive.instr? := by
    rw [OpenRoutine.afterAll_code]
    exact filterMap_instr?_map _ ds
  have holds := OpenRoutine.finished_holds _ last (OpenRoutine.alike_afterAll _ _) _ code
  rw [holds.eq_mk]
  rfl

theorem emitInitializer_writes (base : String) (a a' : Assembler)
    (h : Succeeds (emitInitializer base) a () a') :
    a' = { a with routines := a.routines.push (initializerRoutine base), current := none } := by
  rw [emitInitializer_eq] at h
  exact follow_routine_writes _ _ _
    [.loadLocal Slot.self, .invoke .special base RoutineName.initializer .initializer, .ret .void]
    (by simp [Directive.instr?]) a a' h

/-- The frame that the code of a method needs. -/
theorem Method.afterAll_code_frame (m : Method) (callable : m.Callable) (name : String) :
    ((OpenRoutine.start .internal name .dispatch).afterAll m.code).maxStack = m.peak ∧
      ((OpenRoutine.start .internal name .dispatch).afterAll m.code).maxLocals = 4 := by
  have body := OpenRoutine.afterAll_eq m.bodyCode_use (OpenRoutine.bodyCode_within m callable)
    (OpenRoutine.start .internal name .dispatch) rfl rfl
  rw [m.code_eq, OpenRoutine.afterAll_append, body]
  have returned : max (max 0 m.peak) 0 = m.peak := by rw [Nat.max_zero, Nat.zero_max]
  exact ⟨returned, rfl⟩

theorem emitMethodRoutine_writes (name : String) (m : Method) (a a' : Assembler)
    (h : Succeeds (emitMethodRoutine name m) a () a') :
    a' = { a with routines := a.routines.push (m.routine name), current := none } := by
  obtain ⟨stop, run⟩ := (emitMethodRoutine_iff_follow name m a a').mp h
  obtain ⟨callable, plain, labelled⟩ := methodBody_adds (L := Label) (τ := Label) m stop
  have placed := (methodBody_adds (L := Label) (τ := Nat) m stop).2.2
  obtain ⟨stack, locals⟩ := m.afterAll_code_frame callable name
  have written := follow_routine_writes _ _ _ _ plain a a' run
  rw [labelled, placed, stack, locals] at written
  exact written

theorem emitMethodRoutines_write (arms : List (String × Method)) (a a' : Assembler)
    (closed : a.current = none)
    (h : Succeeds (arms.forM fun (name, m) => emitMethodRoutine name m) a () a') :
    a' = { a with routines := a.routines ++ (arms.map fun (name, m) => m.routine name) } := by
  induction arms generalizing a with
  | nil =>
      obtain ⟨-, rfl⟩ := (Succeeds.pure_iff _ _ _ _).mp h
      simp
  | cons arm arms ih =>
      obtain ⟨_, b, first, rest⟩ := (Succeeds.bind_iff _ _ _ _ _).mp h
      have written := emitMethodRoutine_writes _ _ a b first
      subst written
      rw [ih _ rfl rest, closed]
      simp

theorem emitEntry_writes (unit : String) (routines : List String) (form : SwitchForm)
    (low : routines.length ≤ Token.limit) (a a' : Assembler)
    (h : Succeeds (emitEntry unit (.ofCount routines.length) routines form) a () a') :
    a' = { a with
      routines := a.routines.push (entryRoutine form unit routines), current := none } := by
  obtain ⟨r, holds, ⟨stack, locals⟩, -, rfl⟩ := emitEntry_holds unit routines form low a a' h
  rw [holds.eq_mk, stack, locals]
  rfl

/-- The tokens that methods carry make no difference to their routines. -/
theorem routineArms_routines (stem : String) (methods : List Method) :
    ((routineArms stem methods).map fun (name, m) => m.routine name) =
      methods.zipIdx.map fun (m, position) => m.routine (routineName stem position) := by
  refine List.ext_getElem? fun i => ?_
  rw [List.getElem?_map, List.getElem?_map, List.getElem?_zipIdx, Nat.zero_add]
  cases found : methods[i]? with
  | some m =>
      rw [routineArms_getElem? stem methods i m found]
      rfl
  | none =>
      have past : (routineArms stem methods).length ≤ i := by
        rw [routineArms_length]
        exact List.getElem?_eq_none_iff.mp found
      rw [List.getElem?_eq_none past]
      rfl

open Assembler in
/-- Whatever is generated is this very unit. -/
theorem generate_eq (options : Options) (unit : String) (methods : List Method)
    (index : TokenIndex) (u : CodeUnit)
    (h : (generate options unit methods ({} : Assembler)).result = .ok (index, u)) :
    index = .ofCount methods.length ∧ u = generatedUnit options unit methods := by
  obtain ⟨a, a', opening, count_le, rfl, routines⟩ :=
    (generate_ok_iff_emits options unit methods index u).mp h
  refine ⟨rfl, ?_⟩
  obtain ⟨_, b, begun, init⟩ := (Succeeds.bind_iff _ _ _ _ _).mp opening
  obtain ⟨-, rfl⟩ := (beginUnit_iff _ _ _ _ _).mp begun
  have initialized := emitInitializer_writes _ _ a init
  rw [emitRoutines] at routines
  simp only [Succeeds.bind_iff, markTokens_length] at routines
  obtain ⟨_, c, entry, _, d, arms, finish⟩ := routines
  have names_length : ((List.range methods.length).map (routineName options.stem)).length =
      methods.length := by simp
  have entered := emitEntry_writes unit ((List.range methods.length).map (routineName options.stem))
    options.form (Nat.le_trans (Nat.le_of_eq names_length) count_le) a c
    (by rw [names_length]; exact entry)
  have written := emitMethodRoutines_write _ c d (by rw [entered]) arms
  obtain ⟨name, base, -, header, rfl, -⟩ := (finish_iff d a' u).mp finish
  rw [written, entered, initialized] at header
  cases header
  rw [written, ← routineArms, routineArms_routines, entered, initialized]
  rfl

/-! The switch of the entry point. -/

/-- Every slot of the jump table leads elsewhere than to the default. -/
theorem entryTable_keys (count : Nat) :
    ((((entryCases count).map (·.2)).zipIdx.filter (·.1 != branchStart count)).map
      fun (_, offset) => (1 : Int32) + .ofNat offset) = positionKeys count := by
  have taken : ∀ slot ∈ ((entryCases count).map (·.2)).zipIdx,
      (slot.1 != branchStart count) = true := by
    intro slot mem
    obtain ⟨target, offset⟩ := slot
    have get := List.mk_mem_zipIdx_iff_getElem?.mp mem
    obtain ⟨c, found, rfl⟩ := List.mem_map.mp (List.mem_of_getElem? get)
    obtain ⟨position, low, rfl⟩ := List.mem_map.mp found
    have lt := List.mem_range.mp low
    simp only [bne_iff_ne, branchStart]
    omega
  rw [List.filter_eq_self.mpr taken, positionKeys]
  refine List.ext_getElem? fun i => ?_
  by_cases lt : i < count
  · simp [entryCases, List.getElem?_range lt, positionKey, Int32.ofNat_add, Int32.add_comm]
  · simp [entryCases, lt]

/-- Both forms of the switch have the same arms. -/
theorem entryRoutine_switchArms? (form : SwitchForm) (unit : String) (routines : List String) :
    (entryRoutine form unit routines).switchArms? =
      some (positionKeys routines.length, branchStart routines.length) := by
  unfold Routine.switchArms? entryRoutine entryCode
  simp only [List.findSome?_toArray, List.findSome?_append]
  rw [entrySwitch, positionSwitch]
  split
  · exact congrArg (fun keys => some (keys, branchStart routines.length)) (entryTable_keys _)
  · exact congrArg (fun keys => some (keys, branchStart routines.length)) (entryCases_keys _)

/-- Where the switch of the entry point stands. -/
def switchPosition : Nat := 5

theorem entryCode_switch (form : SwitchForm) (unit : String) (routines : List String) :
    (entryCode form unit routines)[switchPosition]? = some (entrySwitch form routines.length) :=
  rfl

theorem entryCode_load (form : SwitchForm) (unit : String) (routines : List String) (k : Nat)
    (i : Instr Nat) (before : k < switchPosition)
    (found : (entryCode form unit routines)[k]? = some i) : ∃ slot, i = .loadLocal slot := by
  have early : (entryLoads : List (Instr Nat))[k]? = some i := by
    rw [← found, entryCode, List.append_assoc, List.append_assoc, List.getElem?_append_left before]
  have among := List.mem_of_getElem? early
  simp only [entryLoads, List.mem_cons, List.not_mem_nil, or_false] at among
  obtain rfl | rfl | rfl | rfl | rfl := among <;> exact ⟨_, rfl⟩

/-- The switch is the only instruction with targets. -/
theorem entryCode_targets (form : SwitchForm) (unit : String) (routines : List String)
    (k : Nat) (i : Instr Nat) (found : (entryCode form unit routines)[k]? = some i) :
    i.targets ≠ [] ↔ k = switchPosition := by
  obtain before | rfl | after : k < 5 ∨ k = 5 ∨ 6 ≤ k := by omega
  · obtain ⟨slot, rfl⟩ := entryCode_load form unit routines k i before found
    simp [Instr.targets, switchPosition, Nat.ne_of_lt before]
  · cases (entryCode_switch form unit routines).symm.trans found
    have some_target : (entrySwitch form routines.length).targets ≠ [] := by
      rw [entrySwitch, positionSwitch]
      split <;> exact List.cons_ne_nil _ _
    simp [some_target, switchPosition]
  · obtain ⟨j, rfl⟩ := Nat.exists_eq_add_of_le after
    have late : i ∈ (entryCode form unit routines).drop (branchStart 0) := by
      refine List.mem_of_getElem? (i := j) ?_
      rw [List.getElem?_drop]
      exact found
    rw [entryCode_drop form unit routines 0 (Nat.zero_le _)] at late
    have plain : i.targets = [] := by
      simp only [branchCode, List.drop_zero, List.mem_append, List.mem_flatMap, List.mem_cons,
        List.not_mem_nil, or_false] at late
      obtain ⟨_, -, rfl | rfl⟩ | rfl | rfl := late <;> rfl
    have other : 6 + j ≠ switchPosition := by
      rw [switchPosition]
      omega
    simp [plain, other]

/-- A call of a routine whose result is returned. -/
def Routine.CallsAt (r : Routine) (position : Nat) (site : CallSite) : Prop :=
  r.code[position]? = some (.call site) ∧ r.code[position + 1]? = some .ret

theorem entryRoutine_callsAt (form : SwitchForm) (unit : String) (routines : List String)
    (position : Nat) (le : position ≤ routines.length) (kind : CallKind) (routine : String)
    (rest : List (Instr Nat))
    (branch : (routines.drop position).flatMap (branchCode .special unit) ++
      branchCode .virtual unit RoutineName.fallback = branchCode kind unit routine ++ rest) :
    (entryRoutine form unit routines).CallsAt (branchStart position)
      (branchSite kind unit routine) := by
  have drop := entryCode_drop form unit routines position le
  rw [branch] at drop
  have at_ (k : Nat) : (entryRoutine form unit routines).code[branchStart position + k]? =
      (branchCode kind unit routine ++ rest)[k]? := by
    rw [← drop, List.getElem?_drop]
    exact List.getElem?_toArray
  exact ⟨at_ 0, at_ 1⟩

theorem entryRoutine_callsAt_fallback (form : SwitchForm) (unit : String)
    (routines : List String) :
    (entryRoutine form unit routines).CallsAt (branchStart routines.length)
      (branchSite .virtual unit RoutineName.fallback) := by
  refine entryRoutine_callsAt form unit routines _ (Nat.le_refl _) .virtual _ [] ?_
  rw [List.drop_length]
  rfl

theorem entryRoutine_callsAt_routine (form : SwitchForm) (unit : String) (routines : List String)
    (position : Nat) (lt : position < routines.length) :
    (entryRoutine form unit routines).CallsAt (branchStart position)
      (branchSite .special unit routines[position]) := by
  refine entryRoutine_callsAt form unit routines position (Nat.le_of_lt lt) .special _
    ((routines.drop (position + 1)).flatMap (branchCode .special unit) ++
      branchCode .virtual unit RoutineName.fallback) ?_
  rw [List.drop_eq_getElem_cons lt, List.flatMap_cons, List.append_assoc]

theorem positionKeys_toInt (count : Nat) (low : count ≤ Token.limit) :
    (positionKeys count).map Int32.toInt = (List.range count).map fun i : Nat => (i : Int) + 1 := by
  rw [positionKeys, List.map_map]
  refine List.map_congr_left fun position mem => ?_
  exact positionKey_toInt position (Nat.lt_of_lt_of_le (List.mem_range.mp mem) low)

/-- An entry point whose one switch sends the keys from one on to calls of these routines, and every
other key to the call of the fallback. -/
structure Routine.Routes (entry : Routine) (unit : String) (routines : List String)
    (switch : Nat) (default : Nat) : Prop where
  only : ∀ k i, entry.code[k]? = some i → (i.targets ≠ [] ↔ k = switch)
  arms : ∃ keys, entry.switchArms? = some (keys, default) ∧
    keys.map Int32.toInt = (List.range routines.length).map fun i : Nat => (i : Int) + 1
  fallback : entry.CallsAt default (branchSite .virtual unit RoutineName.fallback)
  exec : ∃ i, entry.code[switch]? = some i ∧
    ∀ (h : Hierarchy) (f : Frame) (key : Int32) (s : List Operand), f.stack = .int key :: s →
      (∀ (position : Nat) (routine : String), routines[position]? = some routine →
        key.toInt = position + 1 → ∃ target,
          f.exec h i = .ok { f with position := target, stack := s } ∧
          entry.CallsAt target (branchSite .special unit routine)) ∧
      ((∀ position < routines.length, key.toInt ≠ position + 1) →
        f.exec h i = .ok { f with position := default, stack := s })

theorem entryRoutine_routes (form : SwitchForm) (unit : String) (routines : List String)
    (low : routines.length ≤ Token.limit) :
    (entryRoutine form unit routines).Routes unit routines switchPosition
      (branchStart routines.length) where
  only k i found := entryCode_targets form unit routines k i (by simpa [entryRoutine] using found)
  arms := ⟨_, entryRoutine_switchArms? form unit routines, positionKeys_toInt _ low⟩
  fallback := entryRoutine_callsAt_fallback form unit routines
  exec := by
    refine ⟨entrySwitch form routines.length, rfl, fun h f key s stack => ⟨?_, fun other => ?_⟩⟩
    · intro position routine found key_eq
      obtain ⟨lt, rfl⟩ := List.getElem?_eq_some_iff.mp found
      have same := (eq_positionKey_iff key position (by omega)).mpr key_eq
      subst same
      exact ⟨_, f.exec_entrySwitch h form _ low position lt s stack,
        entryRoutine_callsAt_routine form unit routines position lt⟩
    · refine f.exec_entrySwitch_other h form _ low key (fun position lt same => ?_) s stack
      exact other position lt ((eq_positionKey_iff key position (by omega)).mp same)

/-! What the form of the switch decides. -/

/-- A routine with another instruction at one position. -/
def Routine.withInstr (r : Routine) (position : Nat) (i : Instr Nat) : Routine :=
  { r with code := r.code.setIfInBounds position i }

theorem entryRoutine_form (form form' : SwitchForm) (unit : String) (routines : List String) :
    entryRoutine form' unit routines =
      (entryRoutine form unit routines).withInstr switchPosition
        (entrySwitch form' routines.length) := by
  rw [Routine.withInstr, entryRoutine, entryRoutine]
  simp only [List.setIfInBounds_toArray]
  rfl

/-- Whatever the form, the unit is the same but for the switch of its second routine. -/
theorem generatedUnit_form (options : Options) (form : SwitchForm) (unit : String)
    (methods : List Method) :
    generatedUnit { options with form := form } unit methods =
      { generatedUnit options unit methods with
        routines := (generatedUnit options unit methods).routines.setIfInBounds 1
          (entryRoutine form unit
            ((List.range methods.length).map (routineName options.stem))) } := by
  rw [generatedUnit, generatedUnit]
  congr 1
  apply Array.ext'
  simp

/-- Whether a list is accepted does not depend on the form. -/
theorem generate_form (options : Options) (form : SwitchForm) (unit : String)
    (methods : List Method) (index : TokenIndex) (u : CodeUnit)
    (h : (generate options unit methods ({} : Assembler)).result = .ok (index, u)) :
    (generate { options with form := form } unit methods ({} : Assembler)).result =
      .ok (index, generatedUnit { options with form := form } unit methods) := by
  obtain ⟨a, a', opening, count_le, rfl, routines⟩ :=
    (generate_ok_iff_emits options unit methods index u).mp h
  obtain ⟨init, holds, rfl⟩ := emitOpening_holds options unit a opening
  have wellFormed := (emitRoutines_accepted_iff options unit methods count_le init holds).mp
    ⟨u, a', routines⟩
  obtain ⟨v, b, others⟩ := (emitRoutines_accepted_iff { options with form := form } unit methods
    count_le init holds).mpr wellFormed
  have accepted := (generate_ok_iff_emits { options with form := form } unit methods _ v).mpr
    ⟨_, b, opening, count_le, rfl, others⟩
  rw [accepted, (generate_eq _ unit methods _ v accepted).2]

theorem generatedUnit_toList (options : Options) (unit : String) (methods : List Method) :
    (generatedUnit options unit methods).routines.toList =
      initializerRoutine options.base ::
        entryRoutine options.form unit
          ((List.range methods.length).map (routineName options.stem)) ::
        methods.zipIdx.map fun (m, position) => m.routine (routineName options.stem position) := by
  simp [generatedUnit]

/-- What the routines are called, in their order. -/
theorem generatedUnit_heads (options : Options) (unit : String) (methods : List Method) :
    (generatedUnit options unit methods).routines.toList.map
        (fun r => (r.access, r.name, r.sig)) =
      (.exported, RoutineName.initializer, .initializer) ::
        (.exported, RoutineName.entry, .dispatch) ::
        (List.range methods.length).map fun position =>
          (.internal, routineName options.stem position, .dispatch) := by
  have positions : methods.zipIdx.map Prod.snd = List.range methods.length := by
    rw [List.zipIdx_map_snd, List.range_eq_range']
  have arms : (methods.zipIdx.map fun (m, position) =>
      m.routine (routineName options.stem position)).map (fun r => (r.access, r.name, r.sig)) =
        (List.range methods.length).map fun position =>
          (.internal, routineName options.stem position, .dispatch) := by
    rw [← positions, List.map_map, List.map_map]
    rfl
  rw [generatedUnit_toList, List.map_cons, List.map_cons, arms]
  rfl

theorem generatedUnit_descriptors (options : Options) (unit : String) (methods : List Method) :
    ∀ r ∈ (generatedUnit options unit methods).routines, r.descriptor = r.sig.descriptor := by
  intro r mem
  rw [← Array.mem_toList_iff, generatedUnit_toList] at mem
  obtain rfl | rest := List.mem_cons.mp mem
  · rfl
  · obtain rfl | arm := List.mem_cons.mp rest
    · rfl
    · obtain ⟨_, -, rfl⟩ := List.mem_map.mp arm
      rfl

theorem generatedUnit_names (options : Options) (unit : String) (methods : List Method) :
    ((generatedUnit options unit methods).routines.toList.map Routine.name).Nodup := by
  have names := congrArg (List.map fun head => head.2.1)
    (generatedUnit_heads options unit methods)
  simp only [List.map_map, List.map_cons, Function.comp_def] at names
  rw [names, List.nodup_cons, List.nodup_cons]
  refine ⟨fun mem => ?_, fun mem => ?_, ?_⟩
  · obtain same | later := List.mem_cons.mp mem
    · exact absurd same (by decide +kernel)
    · obtain ⟨position, -, same⟩ := List.mem_map.mp later
      exact routineName_ne_initializer options.stem position same
  · obtain ⟨position, -, same⟩ := List.mem_map.mp mem
    exact routineName_ne_entry options.stem position same
  · refine List.pairwise_map.mpr (List.nodup_range.imp fun differ same => ?_)
    exact differ (routineName_injective options.stem _ _ same)

/-- A generated unit consists of the initializer, the entry point and one routine for each method,
all under different names. The one switch of the entry point sends the keys from one on to the calls
of the routines and any other key to the call of the fallback. With another form of the switch, the
unit is the same but for that instruction, and so are the arms. -/
theorem generate_shape (options : Options) (unit : String) (methods : List Method)
    (index : TokenIndex) (u : CodeUnit)
    (generated : (generate options unit methods ({} : Assembler)).result = .ok (index, u)) :
    (u.routines.toList.map fun r => (r.access, r.name, r.sig)) =
      (.exported, RoutineName.initializer, .initializer) ::
        (.exported, RoutineName.entry, .dispatch) ::
        (List.range methods.length).map (fun position =>
          (.internal, routineName options.stem position, .dispatch)) ∧
    (∀ r ∈ u.routines, r.descriptor = r.sig.descriptor) ∧
    (u.routines.toList.map Routine.name).Nodup ∧
    ∃ entry switch default, u.routines[1]? = some entry ∧
      entry.Routes unit ((List.range methods.length).map (routineName options.stem)) switch
        default ∧
      ∀ form, ∃ i, (entry.withInstr switch i).switchArms? = entry.switchArms? ∧
        (generate { options with form := form } unit methods ({} : Assembler)).result =
          .ok (index,
            { u with routines := u.routines.setIfInBounds 1 (entry.withInstr switch i) }) := by
  have few := (generate_lays options unit methods index u generated).count_le
  obtain ⟨-, rfl⟩ := generate_eq options unit methods index u generated
  let names := (List.range methods.length).map (routineName options.stem)
  have low : names.length ≤ Token.limit := by simpa [names] using few
  refine ⟨generatedUnit_heads options unit methods, generatedUnit_descriptors options unit methods,
    generatedUnit_names options unit methods, entryRoutine options.form unit names, _, _,
    by simp [generatedUnit, names], entryRoutine_routes options.form unit names low,
    fun form => ⟨entrySwitch form names.length, ?_, ?_⟩⟩
  · rw [← entryRoutine_form, entryRoutine_switchArms?, entryRoutine_switchArms?]
  · rw [← entryRoutine_form, generate_form options form unit methods index _ generated,
      generatedUnit_form]

def staticMethod (name : String) : Method :=
  { name := name, declaring := .named "Clock", params := [], ret := .prim .long, isStatic := true }

/-- Two methods, and the switch as a lookup and as a table. -/
theorem generate_shape_of_two :
    ∃ index u, (generate {} "U" [staticMethod "now", staticMethod "zone"]
        ({} : Assembler)).result = .ok (index, u) ∧
      (u.routines.toList.map fun r => (r.access, r.name, r.sig)) =
        [(.exported, "<init>", .initializer), (.exported, "invoke", .dispatch),
          (.internal, "m0", .dispatch), (.internal, "m1", .dispatch)] ∧
      ∃ entry switch default, u.routines[1]? = some entry ∧
        entry.Routes "U" ["m0", "m1"] switch default ∧
        ∃ i, (generate { form := .table } "U" [staticMethod "now", staticMethod "zone"]
          ({} : Assembler)).result =
            .ok (index,
              { u with routines := u.routines.setIfInBounds 1 (entry.withInstr switch i) }) := by
  obtain ⟨index, u, generated⟩ :=
    generated_of_isOk {} "U" [staticMethod "now", staticMethod "zone"] (by decide +kernel)
  obtain ⟨heads, -, -, entry, switch, default, get, routes, forms⟩ :=
    generate_shape {} "U" [staticMethod "now", staticMethod "zone"] index u generated
  have names : (List.range 2).map (routineName "m") = ["m0", "m1"] := by decide +kernel
  obtain ⟨i, -, table⟩ := forms .table
  refine ⟨index, u, generated, heads.trans ?_, entry, switch, default, get, ?_, i, table⟩
  · rfl
  · rw [← names]
    exact routes

end TokenDispatch
