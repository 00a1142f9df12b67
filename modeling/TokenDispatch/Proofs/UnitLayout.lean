import TokenDispatch.Proofs.EntryLayout

/-!
The unit that generation leaves: an initializer, the entry point and one routine for each method, in
the order of the list. No two routines answer to the same call, so each of them is found by its
name, and the tokens that the methods carry make no difference to their code.
-/

namespace TokenDispatch

open Script

/-- No routine answers to a call that a later one is meant for. -/
def DistinctRoutines (routines : Array Routine) : Prop :=
  routines.toList.Pairwise fun r s => r.answersTo s.name s.descriptor = false

namespace DistinctRoutines

theorem push {routines : Array Routine} (h : DistinctRoutines routines) (r : Routine)
    (once : routines.any (·.answersTo r.name r.descriptor) = false) :
    DistinctRoutines (routines.push r) := by
  rw [DistinctRoutines, Array.toList_push, List.pairwise_append]
  refine ⟨h, List.pairwise_singleton _ _, fun s mem t same => ?_⟩
  cases List.mem_singleton.mp same
  simp only [Array.any_eq_false', Bool.not_eq_true] at once
  exact once s (Array.mem_toList_iff.mp mem)

theorem find?_eq {routines : Array Routine} (h : DistinctRoutines routines) (r : Routine)
    (mem : r ∈ routines) : routines.find? (·.answersTo r.name r.descriptor) = some r := by
  rw [← Array.find?_toList]
  replace mem := Array.mem_toList_iff.mpr mem
  rw [DistinctRoutines] at h
  generalize routines.toList = rs at h mem
  induction h with
  | nil => cases mem
  | @cons s rest first _ ih =>
      obtain rfl | later := List.mem_cons.mp mem
      · simp [Routine.answersTo]
      · rw [List.find?_cons, first r later]
        exact ih later

end DistinctRoutines

/-- What the unit of a list of methods consists of. -/
structure CodeUnit.Lays (u : CodeUnit) (options : Options) (unit : String)
    (methods : List Method) : Prop where
  name_eq : u.name = unit
  base_eq : u.base = options.base
  count_le : methods.length ≤ Token.limit
  callable : ∀ m ∈ methods, m.Callable
  distinct : DistinctRoutines u.routines
  size_eq : u.routines.size = 2 + methods.length
  initializer : ∃ r, u.routines[0]? = some r ∧
    r.Holds .exported RoutineName.initializer .initializer (initializerCode options.base)
  entry : ∃ r, u.routines[1]? = some r ∧
    r.Holds .exported RoutineName.entry .dispatch
      (entryCode options.form unit ((List.range methods.length).map (routineName options.stem)))
  routine : ∀ (i : Nat) (m : Method), methods[i]? = some m → ∃ r, u.routines[2 + i]? = some r ∧
    r.Holds .internal (routineName options.stem i) .dispatch m.code

/-- A routine of the unit is found by what it is called, since no other answers to that. -/
theorem CodeUnit.Lays.find?_of_holds {u : CodeUnit} {options : Options} {unit : String}
    {methods : List Method} (lays : u.Lays options unit methods) {k : Nat} {r : Routine}
    {access : Access} {name : String} {sig : Signature} {code : List (Instr Nat)}
    (get : u.routines[k]? = some r) (holds : r.Holds access name sig code) :
    u.find? name sig.descriptor = some r := by
  have found := lays.distinct.find?_eq r (Array.mem_of_getElem? get)
  rw [holds.name_eq, holds.descriptor_eq] at found
  exact found

/-! Marks on methods. -/

theorem Method.mark_eq (m : Method) (position : Nat) :
    m.mark position = { m with token := (Token.ofPosition? position).or m.token } := by
  rw [mark]
  cases Token.ofPosition? position <;> rfl

theorem markTokens_getElem? (methods : List Method) (i : Nat) :
    (markTokens methods)[i]? =
      methods[i]?.map fun m => { m with token := (Token.ofPosition? i).or m.token } := by
  rw [markTokens, List.getElem?_map, List.getElem?_zipIdx]
  cases methods[i]? with
  | none => rfl
  | some m =>
      rw [Option.map_some, Option.map_some, Option.map_some, Nat.zero_add]
      exact congrArg some (m.mark_eq i)

/-- In a list that is not too long, every method is given the token of its position. -/
theorem markTokens_numbered (methods : List Method) (few : methods.length ≤ Token.limit) (i : Nat)
    (m : Method) (found : methods[i]? = some m) :
    ∃ t : Token, t.value.toNat = i + 1 ∧
      (markTokens methods)[i]? = some { m with token := some t } := by
  obtain ⟨bound, -⟩ := List.getElem?_eq_some_iff.mp found
  have low := Nat.lt_of_lt_of_le bound few
  obtain ⟨t, numbered, value⟩ := Token.ofPosition?_of_lt low
  refine ⟨t, by rw [value, Token.toNat_ofNat_succ low], ?_⟩
  rw [markTokens_getElem?, found, numbered]
  rfl

theorem Method.callable_token (m : Method) (token : Option Token) :
    { m with token := token }.Callable ↔ m.Callable :=
  ⟨fun h => ⟨h.owner, h.params, h.positions⟩, fun h => ⟨h.owner, h.params, h.positions⟩⟩

/-- What holds of methods whatever their tokens are holds of a list once it is marked. -/
theorem forall_markTokens_iff (P : Method → Prop)
    (same : ∀ (m : Method) (token : Option Token), P { m with token := token } ↔ P m)
    (methods : List Method) : (∀ m ∈ markTokens methods, P m) ↔ ∀ m ∈ methods, P m := by
  constructor
  · intro h m mem
    obtain ⟨i, found⟩ := List.getElem?_of_mem mem
    have marked := markTokens_getElem? methods i
    rw [found] at marked
    exact (same m _).mp (h _ (List.mem_of_getElem? marked))
  · intro h m mem
    obtain ⟨i, found⟩ := List.getElem?_of_mem mem
    rw [markTokens_getElem?] at found
    obtain ⟨unmarked, get, rfl⟩ := Option.map_eq_some_iff.mp found
    exact (same unmarked _).mpr (h unmarked (List.mem_of_getElem? get))

theorem markTokens_length (methods : List Method) :
    (markTokens methods).length = methods.length := by
  simp [markTokens]

/-- The methods of a list as they are written, each with the name of its routine. -/
def routineArms (stem : String) (methods : List Method) : List (String × Method) :=
  ((List.range methods.length).map (routineName stem)).zip (markTokens methods)

theorem routineArms_length (stem : String) (methods : List Method) :
    (routineArms stem methods).length = methods.length := by
  simp [routineArms, markTokens_length]

theorem routineArms_getElem? (stem : String) (methods : List Method) (i : Nat) (m : Method)
    (found : methods[i]? = some m) :
    (routineArms stem methods)[i]? =
      some (routineName stem i, { m with token := (Token.ofPosition? i).or m.token }) := by
  obtain ⟨bound, -⟩ := List.getElem?_eq_some_iff.mp found
  rw [routineArms, List.getElem?_zip_eq_some, markTokens_getElem?, found, List.getElem?_map,
    List.getElem?_range bound]
  exact ⟨rfl, rfl⟩

theorem emitMethodRoutines_hold (arms : List (String × Method)) (a a' : Assembler)
    (distinct : DistinctRoutines a.routines) (closed : a.current = none)
    (h : Succeeds (arms.forM fun (name, m) => emitMethodRoutine name m) a () a') :
    (∀ arm ∈ arms, arm.2.Callable) ∧ DistinctRoutines a'.routines ∧
      a'.header = a.header ∧ a'.current = none ∧
      a'.routines.size = a.routines.size + arms.length ∧
      (∀ k < a.routines.size, a'.routines[k]? = a.routines[k]?) ∧
      ∀ (k : Nat) (arm : String × Method), arms[k]? = some arm →
        ∃ r, a'.routines[a.routines.size + k]? = some r ∧
          r.Holds .internal arm.1 .dispatch arm.2.code := by
  induction arms generalizing a with
  | nil =>
      obtain ⟨-, rfl⟩ := (Succeeds.pure_iff _ _ _ _).mp h
      exact ⟨nofun, distinct, rfl, closed, rfl, fun _ _ => rfl, nofun⟩
  | cons arm arms ih =>
      obtain ⟨_, b, first, rest⟩ := (Succeeds.bind_iff _ _ _ _ _).mp h
      obtain ⟨callable, routine, holds, once, rfl⟩ := emitMethodRoutine_holds _ _ a b first
      have pushed : DistinctRoutines (a.routines.push routine) := by
        refine distinct.push routine ?_
        rw [holds.name_eq, holds.descriptor_eq]
        exact once
      obtain ⟨callables, distinct', header, closed', size, old, new⟩ := ih _ pushed rfl rest
      simp only [Array.size_push] at size old new
      refine ⟨List.forall_mem_cons.mpr ⟨callable, callables⟩, distinct', header, closed',
        ?_, ?_, ?_⟩
      · rw [size, List.length_cons]
        omega
      · intro k lt
        rw [old k (by omega), Array.getElem?_push_lt lt, Array.getElem?_eq_getElem lt]
      · intro k found_arm found
        cases k with
        | zero =>
            cases found
            refine ⟨routine, ?_, holds⟩
            rw [Nat.add_zero, old _ (by omega), Array.getElem?_push_size]
        | succ k =>
            obtain ⟨r, get, r_holds⟩ := new k found_arm found
            refine ⟨r, ?_, r_holds⟩
            rw [← get]
            congr 1
            omega

/-! The unit. -/

/-- An emitter that has written these routines of a unit, and none is open. -/
def Assembler.between (unit base : String) (routines : Array Routine) : Assembler :=
  { header := some (unit, base), routines := routines, current := none }

/-- The entry point is the second routine. -/
theorem emitEntry_second (options : Options) (unit : String) (count : Nat)
    (low : count ≤ Token.limit) (init : Routine) (b : Assembler)
    (h : Succeeds (emitEntry unit (.ofCount count)
      ((List.range count).map (routineName options.stem)) options.form)
      (.between unit options.base #[init]) () b) :
    ∃ r : Routine, r.Holds .exported RoutineName.entry .dispatch
        (entryCode options.form unit ((List.range count).map (routineName options.stem))) ∧
      DistinctRoutines #[init, r] ∧ b = .between unit options.base #[init, r] := by
  have count_eq : ((List.range count).map (routineName options.stem)).length = count := by simp
  obtain ⟨r, holds, -, once, rfl⟩ := emitEntry_holds unit
    ((List.range count).map (routineName options.stem)) options.form
    (Nat.le_trans (Nat.le_of_eq count_eq) low) _ b (by rw [count_eq]; exact h)
  refine ⟨r, holds, ?_, rfl⟩
  have single : DistinctRoutines #[init] := List.pairwise_singleton _ _
  refine single.push r ?_
  rw [holds.name_eq, holds.descriptor_eq]
  exact once

open Assembler in
theorem emitRoutines_lays (options : Options) (unit : String) (methods : List Method)
    (count_le : methods.length ≤ Token.limit) (a' : Assembler) (u : CodeUnit) (init : Routine)
    (init_holds : init.Holds .exported RoutineName.initializer .initializer
      (initializerCode options.base))
    (h : Succeeds (emitRoutines options unit (.ofCount methods.length) (markTokens methods))
      (.between unit options.base #[init]) u a') :
    u.Lays options unit methods := by
  rw [emitRoutines] at h
  simp only [Succeeds.bind_iff, markTokens_length] at h
  obtain ⟨_, b, entry, _, c, routines, finish⟩ := h
  obtain ⟨r, r_holds, distinct, rfl⟩ := emitEntry_second options unit _ count_le init b entry
  obtain ⟨callable, distinct', header, -, size, old, new⟩ :=
    emitMethodRoutines_hold _ _ c distinct rfl routines
  obtain ⟨name, base, -, header', rfl, -⟩ := (finish_iff c a' u).mp finish
  cases header.symm.trans header'
  refine ⟨rfl, rfl, count_le, fun m mem => ?_, distinct', ?_, ?_, ?_, fun i m found => ?_⟩
  · obtain ⟨i, found⟩ := List.getElem?_of_mem mem
    have arm := List.mem_of_getElem? (routineArms_getElem? options.stem methods i m found)
    exact (m.callable_token _).mp (callable _ arm)
  · rw [size, ← routineArms, routineArms_length]
    rfl
  · exact ⟨init, old 0 Nat.zero_lt_two, init_holds⟩
  · exact ⟨r, old 1 Nat.one_lt_two, r_holds⟩
  · exact new i _ (routineArms_getElem? options.stem methods i m found)

/-- Generation succeeds when the opening does, the list is not too long, and so do the routines. -/
theorem generate_ok_iff_emits (options : Options) (unit : String) (methods : List Method)
    (index : TokenIndex) (u : CodeUnit) :
    (generate options unit methods ({} : Assembler)).result = .ok (index, u) ↔
      ∃ a a', Succeeds (emitOpening options unit) ({} : Assembler) () a ∧
        methods.length ≤ Token.limit ∧ index = .ofCount methods.length ∧
        Succeeds (emitRoutines options unit (.ofCount methods.length) (markTokens methods)) a u
          a' := by
  simp only [Succeeds]
  cases opening : (emitOpening options unit : Emit Assembler Unit) {} with
  | mk result a =>
      cases result with
      | error e =>
          rw [generate_of_unopened methods opening]
          simp
      | ok _ =>
          by_cases count_le : methods.length ≤ Token.limit
          · cases run : (emitRoutines options unit (.ofCount methods.length) (markTokens methods) :
                Emit Assembler CodeUnit) a with
            | mk output c =>
                rw [generate_of_routines methods count_le opening run]
                cases output with
                | error e => simp [Except.map, run]
                | ok v => simp [Except.map, run, count_le, eq_comm]
          · rw [generate_of_long methods (Nat.not_le.mp count_le) opening]
            simp [count_le]

open Assembler in
/-- What the opening of a unit leaves on a new emitter. -/
theorem emitOpening_holds (options : Options) (unit : String) (a : Assembler)
    (h : Succeeds (emitOpening options unit) ({} : Assembler) () a) :
    ∃ init : Routine, init.Holds .exported RoutineName.initializer .initializer
        (initializerCode options.base) ∧
      a = .between unit options.base #[init] := by
  obtain ⟨_, b, first, rest⟩ := (Succeeds.bind_iff _ _ _ _ _).mp h
  obtain ⟨-, rfl⟩ := (beginUnit_iff _ _ _ _ _).mp first
  obtain ⟨init, holds, -, rfl⟩ := emitInitializer_holds _ _ _ rest
  exact ⟨init, holds, rfl⟩

/-- Whatever is generated has this layout. -/
theorem generate_lays (options : Options) (unit : String) (methods : List Method)
    (index : TokenIndex) (u : CodeUnit)
    (h : (generate options unit methods ({} : Assembler)).result = .ok (index, u)) :
    u.Lays options unit methods := by
  obtain ⟨a, a', opening, count_le, -, routines⟩ :=
    (generate_ok_iff_emits options unit methods index u).mp h
  obtain ⟨init, holds, rfl⟩ := emitOpening_holds options unit a opening
  exact emitRoutines_lays options unit methods count_le a' u init holds routines

theorem generated_of_isOk (options : Options) (unit : String) (methods : List Method)
    (ok : (generate options unit methods ({} : Assembler)).result.isOk = true) :
    ∃ index u, (generate options unit methods ({} : Assembler)).result = .ok (index, u) := by
  cases generated : (generate options unit methods ({} : Assembler)).result with
  | error e =>
      rw [generated] at ok
      cases ok
  | ok output => exact ⟨output.1, output.2, rfl⟩

end TokenDispatch
