import TokenDispatch.Proofs.UnitLayout

/-!
Which lists a unit is generated for. A method gets its routine when it is called on a class or an
interface, takes values only, and leaves room on the stack for one operand more than its call takes.
All else in a unit is accepted, whatever the names are: no two routines share theirs.
-/

namespace TokenDispatch

open Script

variable {L : Type}

/-- A method that a routine can be generated for. -/
structure Method.WellFormed (m : Method) : Prop where
  owner : ∃ name, m.target = .named name
  params : ∀ param ∈ m.params, param ≠ .void
  /-- The array that the last argument is taken from lies above all operands before it. -/
  room : m.params.length + (if m.shape = .static then 0 else 1) < frameLimit

namespace Method

theorem wellFormed_iff (m : Method) :
    m.WellFormed ↔ m.Callable ∧ m.site.operands < frameLimit := by
  rw [m.site_operands]
  constructor
  · intro h
    obtain ⟨name, target⟩ := h.owner
    refine ⟨⟨by rw [target]; rfl, h.params, fun position lt => ?_⟩, h.room⟩
    have room := h.room
    have limits : frameLimit ≤ indexLimit := by decide
    omega
  · intro h
    exact ⟨⟨_, h.1.owner⟩, h.1.params, h.2⟩

/-- A method is as well formed with one token as with another. -/
theorem wellFormed_token (m : Method) (token : Option Token) :
    { m with token := token }.WellFormed ↔ m.WellFormed :=
  ⟨fun h => ⟨h.owner, h.params, h.room⟩, fun h => ⟨h.owner, h.params, h.room⟩⟩

theorem peak_le_iff (m : Method) : m.peak ≤ frameLimit ↔ m.site.operands < frameLimit := by
  have limit : frameLimit = 65535 := rfl
  rw [peak]
  split
  · have few : m.site.operands ≤ 1 := by
      rw [m.site_operands]
      split <;> omega
    omega
  · exact Iff.rfl

end Method

/-! Scripts that nothing stops. -/

namespace Script

theorem all_stop (scripts : List (Script L)) (h : ∀ s ∈ scripts, s.stop = none) :
    (all scripts).stop = none := by
  induction scripts with
  | nil => rfl
  | cons s scripts ih =>
      obtain ⟨head, tail⟩ := List.forall_mem_cons.mp h
      exact (append_stop_eq_none_iff s (all scripts)).mpr ⟨head, ih tail⟩

theorem narrowing_stop (target : Ty) (value : target ≠ .void) :
    (narrowing target : Script L).stop = none := by
  cases target with
  | void => exact absurd rfl value
  | prim _ | named _ | array _ => rfl

theorem element_stop (param : Ty) (position : Nat) (value : param ≠ .void)
    (low : position < indexLimit) : (element param position : Script L).stop = none := by
  rw [element, if_neg (Nat.not_le.mpr low), append_stop_eq_none_iff]
  exact ⟨rfl, narrowing_stop param value⟩

/-- Nothing stops the body of a method that can be called. -/
theorem methodBody_stop (m : Method) (callable : m.Callable) :
    (methodBody m : Script L).stop = none := by
  have target := callable.owner
  have receiver_stop : (receiver m : Script L).stop = none := by
    rw [receiver]
    split
    · rfl
    · rw [append_stop_eq_none_iff]
      exact ⟨rfl, narrowing_stop m.target (by rw [target]; exact Ty.noConfusion)⟩
  have elements_stop : (elements m.params : Script L).stop = none := by
    apply all_stop
    intro s mem
    obtain ⟨⟨param, position⟩, among, rfl⟩ := List.mem_map.mp mem
    obtain ⟨-, low, same⟩ := List.mem_zipIdx among
    rw [Nat.zero_add] at low
    refine element_stop param position ?_ (callable.positions position low)
    rw [same]
    exact callable.params _ (List.getElem_mem _)
  have call_stop : (targetCall m : Script L).stop = none := by
    rw [targetCall, target]
    simp only [Ty.className?, append_stop_eq_none_iff, receiver_stop, elements_stop, and_self]
  have reference_stop : (reference m.ret : Script L).stop = none := by
    cases m.ret <;> rfl
  rw [methodBody, append_stop_eq_none_iff, append_stop_eq_none_iff]
  exact ⟨⟨call_stop, reference_stop⟩, rfl⟩

end Script

/-! Routines of methods. -/

namespace OpenRoutine

/-- The instructions that operands are loaded with are permitted wherever the slots are there. -/
theorem permits_of_loads (r : OpenRoutine) (locals : Slot.arguments < r.maxLocals)
    (i : Instr Label) (h : i.Loads) : r.Permits i := by
  cases h with
  | slot le => exact Nat.lt_of_le_of_lt le locals
  | checkCast reference => exact reference
  | _ => trivial

/-- A routine with the dispatch signature permits the body of a method but for the size of the
call. -/
theorem permits_bodyCode_iff (access : Access) (name : String) (m : Method)
    (callable : m.Callable) :
    (∀ i ∈ m.bodyCode, (start access name .dispatch).Permits i) ↔
      m.site.operands ≤ frameLimit := by
  have locals : Slot.arguments < (start access name .dispatch).maxLocals := (by decide : 3 < 4)
  have operands : ∀ i ∈ m.receiverCode ++ elementsCode m.params 0,
      (start access name .dispatch).Permits i := fun i mem =>
    permits_of_loads _ locals i (m.operandsCode_loads callable i mem)
  have reference : ∀ i ∈ m.ret.referenceCode, (start access name .dispatch).Permits i := by
    cases m.ret <;> simp [Ty.referenceCode, Permits]
  rw [Method.bodyCode, List.forall_mem_append, List.forall_mem_append, List.forall_mem_singleton]
  exact ⟨fun h => h.1.2, fun le => ⟨⟨operands, le⟩, reference⟩⟩

theorem bodyCode_within {τ : Type} (m : Method) (callable : m.Callable) :
    ∀ i ∈ (m.bodyCode : List (Instr τ)), i.endsBlock = false := by
  rw [Method.bodyCode, List.forall_mem_append, List.forall_mem_append, List.forall_mem_singleton]
  refine ⟨⟨fun i mem => ?_, rfl⟩, ?_⟩
  · cases m.operandsCode_loads callable i mem <;> rfl
  · cases m.ret <;> simp [Ty.referenceCode, Instr.endsBlock]

/-- A new routine with the dispatch signature accepts the code of a method that leaves room. -/
theorem acceptsAll_code_iff (access : Access) (name : String) (m : Method)
    (callable : m.Callable) :
    (start access name .dispatch).AcceptsAll m.code ↔ m.site.operands < frameLimit := by
  have within := bodyCode_within (τ := Label) m callable
  have body := acceptsAll_iff m.bodyCode_use within (start access name .dispatch) rfl rfl
  have returns : ((start access name .dispatch).afterAll m.bodyCode).AcceptsAll [.ret] := by
    rw [afterAll_eq m.bodyCode_use within (start access name .dispatch) rfl rfl]
    exact ⟨⟨rfl, rfl, Nat.le_refl 1, Nat.zero_le _⟩, trivial⟩
  rw [m.code_eq, acceptsAll_append, body, permits_bodyCode_iff _ _ m callable, m.peak_le_iff]
  exact ⟨fun h => h.1.2, fun lt => ⟨⟨Nat.le_of_lt lt, lt⟩, returns⟩⟩

/-- Such a routine is complete: the last instruction ends its block. -/
theorem reachable_afterAll_code (access : Access) (name : String) (m : Method) :
    ((start access name .dispatch).afterAll m.code).reachable = false := by
  rw [m.code_eq, afterAll_append]
  rfl

end OpenRoutine

open OpenRoutine in
/-- A routine is made for exactly the well-formed methods, under any name that is free. -/
theorem emitMethodRoutine_accepted_iff (name : String) (m : Method) (a : Assembler)
    (begun : a.header ≠ none) (closed : a.current = none)
    (free : a.routines.any (·.answersTo name Signature.dispatch.descriptor) = false) :
    (∃ a', Succeeds (emitMethodRoutine name m) a () a') ↔ m.WellFormed := by
  have few : Signature.dispatch.params.length ≤ frameLimit := by decide
  rw [m.wellFormed_iff]
  constructor
  · intro h
    obtain ⟨a', run⟩ := h
    obtain ⟨stop, run⟩ := (emitMethodRoutine_iff_follow name m a a').mp run
    obtain ⟨callable, plain, adds⟩ := methodBody_adds (L := Label) (τ := Label) m stop
    obtain ⟨-, accepts, -⟩ := (follow_routine_iff _ _ _ _ plain a a').mp run
    rw [adds, acceptsAll_code_iff _ _ m callable] at accepts
    exact ⟨callable, accepts⟩
  · intro h
    obtain ⟨callable, room⟩ := h
    have stop := methodBody_stop (L := Label) m callable
    obtain ⟨-, plain, adds⟩ := methodBody_adds (L := Label) (τ := Label) m stop
    have written := follow_routine_iff .internal name .dispatch _ plain a
    rw [adds] at written
    refine ⟨_, (emitMethodRoutine_iff_follow name m a _).mpr ⟨stop, (written _).mpr
      ⟨⟨begun, closed, few⟩, ?_, reachable_afterAll_code _ _ m, free, rfl⟩⟩⟩
    exact (acceptsAll_code_iff _ _ m callable).mpr room

/-- The routines of a list are made when each of its methods is well formed. -/
theorem emitMethodRoutines_accepted_iff (arms : List (String × Method)) (a : Assembler)
    (begun : a.header ≠ none) (closed : a.current = none)
    (free : ∀ name ∈ arms.map (·.1),
      a.routines.any (·.answersTo name Signature.dispatch.descriptor) = false)
    (distinct : (arms.map (·.1)).Nodup) :
    (∃ a', Succeeds (arms.forM fun (name, m) => emitMethodRoutine name m) a () a') ↔
      ∀ m ∈ arms.map (·.2), m.WellFormed := by
  induction arms generalizing a with
  | nil => exact ⟨fun _ => nofun, fun _ => ⟨a, (Succeeds.pure_iff _ _ _ _).mpr ⟨rfl, rfl⟩⟩⟩
  | cons arm arms ih =>
      obtain ⟨name, m⟩ := arm
      rw [List.map_cons, List.forall_mem_cons] at free
      rw [List.map_cons, List.nodup_cons] at distinct
      obtain ⟨first_free, others_free⟩ := free
      have first_iff := emitMethodRoutine_accepted_iff name m a begun closed first_free
      -- the routine of the first method takes no other name
      have rest_iff (b : Assembler) (first : Succeeds (emitMethodRoutine name m) a () b) :
          (∃ a', Succeeds (arms.forM fun (name, m) => emitMethodRoutine name m) b () a') ↔
            ∀ m ∈ arms.map (·.2), m.WellFormed := by
        obtain ⟨-, routine, holds, -, rfl⟩ := emitMethodRoutine_holds name m a b first
        refine ih _ begun rfl (fun other mem => ?_) distinct.2
        have differ : name ≠ other := fun same => distinct.1 (same ▸ mem)
        rw [Array.any_push, others_free other mem, Bool.false_or, Routine.answersTo, holds.name_eq,
          beq_false_of_ne differ, Bool.false_and]
      rw [List.map_cons, List.forall_mem_cons, ← first_iff]
      constructor
      · intro h
        obtain ⟨a', run⟩ := h
        obtain ⟨_, b, first, rest⟩ := (Succeeds.bind_iff _ _ _ _ _).mp run
        exact ⟨⟨b, first⟩, (rest_iff b first).mp ⟨a', rest⟩⟩
      · intro h
        obtain ⟨⟨b, first⟩, wellFormed⟩ := h
        obtain ⟨a', rest⟩ := (rest_iff b first).mpr wellFormed
        exact ⟨a', (Succeeds.bind_iff _ _ _ _ _).mpr ⟨(), b, first, rest⟩⟩

/-! Names of routines. -/

theorem routineName_chars (stem : String) (position : Nat) :
    (routineName stem position).toList = stem.toList ++ Nat.toDigits 10 position := by
  rw [routineName, String.toList_append, Nat.toString_eq_ofList_toDigits, String.toList_ofList]

theorem routineName_injective (stem : String) (i j : Nat)
    (same : routineName stem i = routineName stem j) : i = j := by
  have chars := congrArg String.toList same
  rw [routineName_chars, routineName_chars] at chars
  have digits := List.append_cancel_left chars
  rw [← Nat.ofDigitChars_ten_toDigits (n := i), digits, Nat.ofDigitChars_ten_toDigits]

/-- The name of a method's routine ends in a digit. -/
theorem routineName_ne_of_last (stem : String) (position : Nat) (name : String) (c : Char)
    (last : name.toList.getLast? = some c) (plain : c.isDigit = false) :
    routineName stem position ≠ name := by
  intro same
  rw [← same, routineName_chars, List.getLast?_append] at last
  cases ends : (Nat.toDigits 10 position).getLast? with
  | none => exact Nat.toDigits_ne_nil (List.getLast?_eq_none_iff.mp ends)
  | some digit =>
      rw [ends] at last
      cases last
      have is_digit := Nat.isDigit_of_mem_toDigits (by decide) (by decide)
        (List.mem_of_getLast? ends)
      cases plain.symm.trans is_digit

theorem routineName_ne_entry (stem : String) (position : Nat) :
    routineName stem position ≠ RoutineName.entry :=
  routineName_ne_of_last stem position _ 'e' rfl rfl

theorem routineName_ne_initializer (stem : String) (position : Nat) :
    routineName stem position ≠ RoutineName.initializer :=
  routineName_ne_of_last stem position _ '>' rfl rfl

/-! Units. -/

open OpenRoutine in
/-- The initializer is accepted as the first routine of a unit. -/
theorem emitInitializer_accepted (base : String) (a : Assembler) (begun : a.header ≠ none)
    (closed : a.current = none) (first : a.routines = #[]) :
    ∃ a', Succeeds (emitInitializer base) a () a' := by
  let site := initializerSite base
  let opened := start .exported RoutineName.initializer .initializer
  have locals : opened.maxLocals = 1 := rfl
  have load : StackUse [(.loadLocal Slot.self : Instr Label), .call site] 0 0 1 := by
    have call : StackUse [(.call site : Instr Label)] 1 0 0 := .one _ 1 (Nat.le_refl 1)
    exact .cons (i := (.loadLocal Slot.self : Instr Label)) (Nat.zero_le 0) call
  have within : ∀ i ∈ [(.loadLocal Slot.self : Instr Label), .call site], i.endsBlock = false := by
    simp [Instr.endsBlock]
  have body : opened.AcceptsAll [.loadLocal Slot.self, .call site] := by
    refine (acceptsAll_iff load within opened rfl rfl).mpr ⟨?_, by decide⟩
    have one_operand : site.operands ≤ frameLimit := (by decide : 1 ≤ frameLimit)
    simp [Permits, locals, Slot.self, one_operand]
  have accepts : opened.AcceptsAll (initializerCode base) := by
    change opened.AcceptsAll ([.loadLocal Slot.self, .call site] ++ [.retVoid])
    rw [acceptsAll_append, afterAll_eq load within opened rfl rfl]
    exact ⟨body, ⟨rfl, rfl, Nat.le_refl 0, Nat.zero_le _⟩, trivial⟩
  have free : a.routines.any
      (·.answersTo RoutineName.initializer Signature.initializer.descriptor) = false := by
    rw [first, Array.any_empty]
  have routine := follow_routine_iff .exported RoutineName.initializer .initializer
    [.loadLocal Slot.self, .invoke .special base RoutineName.initializer .initializer, .ret .void]
    (by simp [Directive.instr?]) a
  rw [emitInitializer_eq]
  exact ⟨_, (routine _).mpr ⟨⟨begun, closed, by decide⟩, accepts, rfl, free, rfl⟩⟩

open Assembler in
theorem emitOpening_accepted (options : Options) (unit : String) :
    ∃ a, Succeeds (emitOpening options unit) ({} : Assembler) () a := by
  have begun : Succeeds (perform (.beginUnit unit options.base)) ({} : Assembler) ()
      { header := some (unit, options.base) } := (beginUnit_iff _ _ _ _ _).mpr ⟨rfl, rfl⟩
  obtain ⟨a, initializer⟩ := emitInitializer_accepted options.base
    { header := some (unit, options.base) } (Option.some_ne_none _) rfl rfl
  exact ⟨a, (Succeeds.bind_iff _ _ _ _ _).mpr ⟨(), _, begun, initializer⟩⟩

open Assembler in
/-- After the initializer, the routines of a list are emitted when its methods are well formed. -/
theorem emitRoutines_accepted_iff (options : Options) (unit : String) (methods : List Method)
    (count_le : methods.length ≤ Token.limit) (init : Routine)
    (init_holds : init.Holds .exported RoutineName.initializer .initializer
      (initializerCode options.base)) :
    (∃ u a', Succeeds (emitRoutines options unit (.ofCount methods.length) (markTokens methods))
      (between unit options.base #[init]) u a') ↔ ∀ m ∈ methods, m.WellFormed := by
  let names := (List.range methods.length).map (routineName options.stem)
  have names_length : names.length = methods.length := by simp [names]
  have as_many : names.length = (markTokens methods).length := by
    rw [names_length, markTokens_length]
  have arm_names : (names.zip (markTokens methods)).map (·.1) = names :=
    List.map_fst_zip (Nat.le_of_eq as_many)
  have arm_methods : (names.zip (markTokens methods)).map (·.2) = markTokens methods :=
    List.map_snd_zip (Nat.le_of_eq as_many.symm)
  have distinct : ((names.zip (markTokens methods)).map (·.1)).Nodup := by
    rw [arm_names]
    refine List.pairwise_map.mpr (List.nodup_range.imp fun differ same => ?_)
    exact differ (routineName_injective options.stem _ _ same)
  -- what comes after the entry point, whichever routine that is
  have routines_iff (r : Routine) (r_name : r.name = RoutineName.entry) :
      (∃ c, Succeeds ((names.zip (markTokens methods)).forM fun (name, m) =>
        emitMethodRoutine name m) (between unit options.base #[init, r]) () c) ↔
        ∀ m ∈ methods, m.WellFormed := by
    have free : ∀ name ∈ (names.zip (markTokens methods)).map (·.1),
        #[init, r].any (·.answersTo name Signature.dispatch.descriptor) = false := by
      intro name mem
      rw [arm_names] at mem
      obtain ⟨position, -, rfl⟩ := List.mem_map.mp mem
      have other_name := (routineName_ne_entry options.stem position).symm
      have other_descriptor : Signature.initializer.descriptor ≠ Signature.dispatch.descriptor := by
        decide +kernel
      simp [Routine.answersTo, init_holds.descriptor_eq, r_name, other_name, other_descriptor]
    rw [← forall_markTokens_iff Method.WellFormed Method.wellFormed_token]
    have accepted := emitMethodRoutines_accepted_iff (names.zip (markTokens methods))
      (between unit options.base #[init, r]) (Option.some_ne_none _) rfl free distinct
    rwa [arm_methods] at accepted
  rw [emitRoutines, markTokens_length]
  simp only [Succeeds.bind_iff]
  constructor
  · intro h
    obtain ⟨u, a', _, b, entry, _, c, routines, -⟩ := h
    obtain ⟨r, r_holds, -, rfl⟩ := emitEntry_second options unit _ count_le init b entry
    exact (routines_iff r r_holds.name_eq).mp ⟨c, routines⟩
  · intro wellFormed
    have entry_free : #[init].any
        (·.answersTo RoutineName.entry Signature.dispatch.descriptor) = false := by
      simp [Routine.answersTo, init_holds.name_eq, RoutineName.initializer, RoutineName.entry]
    obtain ⟨b, entry⟩ := emitEntry_accepted unit names options.form
      (Nat.le_trans (Nat.le_of_eq names_length) count_le) (between unit options.base #[init])
      (Option.some_ne_none _) rfl entry_free
    rw [names_length] at entry
    obtain ⟨r, r_holds, once, rfl⟩ := emitEntry_second options unit _ count_le init b entry
    obtain ⟨c, routines⟩ := (routines_iff r r_holds.name_eq).mpr wellFormed
    obtain ⟨-, -, header, closed, -⟩ := emitMethodRoutines_hold _ _ c once rfl routines
    have finished := (finish_iff c c _).mpr ⟨unit, options.base, closed, header, rfl, rfl⟩
    exact ⟨_, c, (), _, entry, (), c, routines, finished⟩

/-- A unit is generated for exactly the lists that are not too long and hold only well-formed
methods, whatever the names of the unit, of its base and of its routines are. -/
theorem generate_ok_iff (options : Options) (unit : String) (methods : List Method) :
    (∃ index u, (generate options unit methods ({} : Assembler)).result = .ok (index, u)) ↔
      methods.length ≤ Token.limit ∧ ∀ m ∈ methods, m.WellFormed := by
  simp only [generate_ok_iff_emits]
  constructor
  · intro h
    obtain ⟨index, u, a, a', opening, count_le, -, routines⟩ := h
    obtain ⟨init, holds, rfl⟩ := emitOpening_holds options unit a opening
    exact ⟨count_le, (emitRoutines_accepted_iff options unit methods count_le init holds).mp
      ⟨u, a', routines⟩⟩
  · intro h
    obtain ⟨count_le, wellFormed⟩ := h
    obtain ⟨a, opening⟩ := emitOpening_accepted options unit
    obtain ⟨init, holds, rfl⟩ := emitOpening_holds options unit a opening
    obtain ⟨u, a', routines⟩ :=
      (emitRoutines_accepted_iff options unit methods count_le init holds).mpr wellFormed
    exact ⟨_, u, _, a', opening, count_le, rfl, routines⟩

end TokenDispatch
