import TokenDispatch.Proofs.GeneratedCode

/-!
The unit that generation leaves: an initializer, the entry point and one routine for each method,
with known names and known code. Labels of the entry point are gone, and its switch sends each token
to the call of its routine.
-/

namespace TokenDispatch

open Script

variable {τ ρ L : Type}

/-- What a finished routine is called and which code it holds. -/
structure Routine.Holds (r : Routine) (access : Access) (name : String) (sig : Signature)
    (code : List (Instr Nat)) : Prop where
  access_eq : r.access = access
  name_eq : r.name = name
  sig_eq : r.sig = sig
  descriptor_eq : r.descriptor = sig.descriptor
  code_eq : r.code.toList = code

namespace OpenRoutine

/-- The routine once instructions without branch targets are added. -/
def afterAll (r : OpenRoutine) (is : List (Instr Label)) : OpenRoutine := is.foldl after r

/-- Routines that are begun alike, and so end with the same name and signature. -/
structure Alike (r s : OpenRoutine) : Prop where
  access : s.access = r.access
  name : s.name = r.name
  sig : s.sig = r.sig

theorem Alike.refl (r : OpenRoutine) : r.Alike r := ⟨rfl, rfl, rfl⟩

theorem Alike.trans {r s t : OpenRoutine} (h : r.Alike s) (k : s.Alike t) : r.Alike t :=
  ⟨k.access.trans h.access, k.name.trans h.name, k.sig.trans h.sig⟩

theorem alike_afterAll (r : OpenRoutine) (is : List (Instr Label)) : r.Alike (r.afterAll is) := by
  induction is generalizing r with
  | nil => exact .refl r
  | cons i is ih => exact Alike.trans (s := r.after i) ⟨rfl, rfl, rfl⟩ (ih (r.after i))

theorem afterAll_code (r : OpenRoutine) (is : List (Instr Label)) :
    (r.afterAll is).code.toList = r.code.toList ++ is := by
  induction is generalizing r with
  | nil => simp [afterAll]
  | cons i is ih =>
      change ((r.after i).afterAll is).code.toList = _
      rw [ih]
      simp [after]

theorem afterAll_append (r : OpenRoutine) (is js : List (Instr Label)) :
    r.afterAll (is ++ js) = (r.afterAll is).afterAll js := List.foldl_append

theorem afterAll_placed (r : OpenRoutine) (is : List (Instr Label)) :
    (r.afterAll is).placed = r.placed := by
  induction is generalizing r with
  | nil => rfl
  | cons i is ih => exact ih (r.after i)

/-- Whether instructions without branch targets can be added one after another. -/
def AcceptsAll (r : OpenRoutine) : List (Instr Label) → Prop
  | [] => True
  | i :: is => r.Accepts i ∧ (r.after i).AcceptsAll is

theorem acceptsAll_append (r : OpenRoutine) (is js : List (Instr Label)) :
    r.AcceptsAll (is ++ js) ↔ r.AcceptsAll is ∧ (r.afterAll is).AcceptsAll js := by
  induction is generalizing r with
  | nil => simp [AcceptsAll, afterAll]
  | cons i is ih =>
      rw [List.cons_append, AcceptsAll, AcceptsAll, ih, and_assoc]
      rfl

/-- What a routine holds once it is finished: its code, with a position for each label. -/
theorem finished_holds (r s : OpenRoutine) (h : r.Alike s) (code : List (Instr Nat))
    (same : s.code.toList.map (Instr.map s.position) = code) :
    s.finished.Holds r.access r.name r.sig code :=
  ⟨h.access, h.name, h.sig, congrArg Signature.descriptor h.sig, by simpa [finished] using same⟩

end OpenRoutine

theorem follow_append_iff (ds es : List (Directive Label)) (a a' : Assembler) :
    Succeeds (follow (ds ++ es)) a () a' ↔
      ∃ b, Succeeds (follow ds) a () b ∧ Succeeds (follow es) b () a' := by
  rw [follow_append, Succeeds.bind_iff]
  exact ⟨fun ⟨_, b, h⟩ => ⟨b, h⟩, fun ⟨b, h⟩ => ⟨(), b, h⟩⟩

theorem follow_singleton_iff (d : Directive Label) (a a' : Assembler) :
    Succeeds (follow [d]) a () a' ↔ Succeeds (Assembler.perform d) a () a' := by
  rw [follow_singleton]
  exact Iff.rfl

theorem follow_cons_iff (d : Directive Label) (ds : List (Directive Label)) (a a' : Assembler) :
    Succeeds (follow (d :: ds)) a () a' ↔
      ∃ b, Succeeds (Assembler.perform d) a () b ∧ Succeeds (follow ds) b () a' := by
  rw [← List.singleton_append, follow_append_iff]
  simp only [follow_singleton_iff]

open Assembler in
/-- Directives that only add instructions, on an open routine. -/
theorem follow_plain_iff (ds : List (Directive Label))
    (plain : ∀ d ∈ ds, (d.instr? : Option (Instr Label)).isSome) (a a' : Assembler)
    (r : OpenRoutine) (current : a.current = some r) :
    Succeeds (follow ds) a () a' ↔ r.AcceptsAll (ds.filterMap Directive.instr?) ∧
      a' = { a with current := some (r.afterAll (ds.filterMap Directive.instr?)) } := by
  induction ds generalizing a r with
  | nil =>
      have same : a = { a with current := some r } := by rw [← current]
      rw [follow, Succeeds.pure_iff, List.filterMap_nil]
      simp only [true_and, OpenRoutine.AcceptsAll, OpenRoutine.afterAll, List.foldl_nil]
      rw [← same, eq_comm]
  | cons d ds ih =>
      obtain ⟨i, instr⟩ := Option.isSome_iff_exists.mp (plain d (.head _))
      have rest := ih fun e mem => plain e (.tail _ mem)
      rw [follow_cons_iff, List.filterMap_cons, instr]
      simp only [perform_instr_iff d i instr]
      constructor
      · intro h
        obtain ⟨b, ⟨s, open_eq, accepts, rfl⟩, run⟩ := h
        cases current.symm.trans open_eq
        obtain ⟨all, rfl⟩ := (rest _ (r.after i) rfl).mp run
        exact ⟨⟨accepts, all⟩, rfl⟩
      · intro h
        obtain ⟨⟨accepts, all⟩, rfl⟩ := h
        exact ⟨_, ⟨r, current, accepts, rfl⟩, (rest _ (r.after i) rfl).mpr ⟨all, rfl⟩⟩

theorem emit_iff (s : Script Label) (a a' : Assembler) :
    Succeeds s.emit a () a' ↔ s.stop = none ∧ Succeeds (follow s.calls) a () a' := by
  rw [emit, Succeeds.bind_iff]
  cases s.stop with
  | none =>
      simp only [Succeeds.pure_iff, true_and]
      refine ⟨fun h => ?_, fun h => ⟨(), a', h, rfl⟩⟩
      obtain ⟨_, _, run, rfl⟩ := h
      exact run
  | some e => simp [Succeeds.not_throw]

/-- Instructions without branch targets are the same over labels and over positions. -/
theorem filterMap_instr?_map (g : τ → ρ) (ds : List (Directive L)) :
    (ds.filterMap Directive.instr? : List (Instr τ)).map (Instr.map g) =
      ds.filterMap Directive.instr? := by
  rw [List.map_filterMap]
  exact congrArg (List.filterMap · ds) (funext fun d => d.instr?_map g)

open Assembler OpenRoutine in
/-- A routine without labels is begun, filled and ended. -/
theorem follow_routine_iff (access : Access) (name : String) (sig : Signature)
    (ds : List (Directive Label)) (plain : ∀ d ∈ ds, (d.instr? : Option (Instr Label)).isSome)
    (a a' : Assembler) :
    Succeeds (follow ([.beginRoutine access name sig] ++ ds ++ [.endRoutine])) a () a' ↔
      (a.header ≠ none ∧ a.current = none ∧ sig.params.length ≤ frameLimit) ∧
        (start access name sig).AcceptsAll (ds.filterMap Directive.instr?) ∧
        ((start access name sig).afterAll (ds.filterMap Directive.instr?)).reachable = false ∧
        a.routines.any (·.answersTo name sig.descriptor) = false ∧
        a' = { a with
          routines := a.routines.push
            ((start access name sig).afterAll (ds.filterMap Directive.instr?)).finished
          current := none } := by
  let last := (start access name sig).afterAll (ds.filterMap Directive.instr?)
  have alike : (start access name sig).Alike last := alike_afterAll _ _
  have code : last.code.toList = ds.filterMap Directive.instr? := afterAll_code _ _
  have resolved : ∀ i ∈ last.code, ∀ l ∈ i.targets, last.resolve l = .ok (last.position l) := by
    intro i mem l target
    rw [← Array.mem_toList_iff, code] at mem
    obtain ⟨d, -, instr⟩ := List.mem_filterMap.mp mem
    rw [d.targets_of_instr? i instr] at target
    cases target
  simp only [follow_append_iff, follow_singleton_iff, beginRoutine_iff, endRoutine_iff]
  constructor
  · intro h
    obtain ⟨c, ⟨b, ⟨begun, rfl⟩, run⟩, r, open_eq, ends, -, once, rfl⟩ := h
    obtain ⟨accepts, rfl⟩ := (follow_plain_iff ds plain _ c _ rfl).mp run
    cases open_eq
    rw [alike.name, alike.sig] at once
    exact ⟨begun, accepts, ends, once, rfl⟩
  · intro h
    obtain ⟨begun, accepts, ends, once, rfl⟩ := h
    refine ⟨_, ⟨_, ⟨begun, rfl⟩, (follow_plain_iff ds plain _ _ _ rfl).mpr ⟨accepts, rfl⟩⟩,
      last, rfl, ends, resolved, ?_, rfl⟩
    rw [alike.name, alike.sig]
    exact once

open Assembler in
/-- A routine without labels holds the instructions that were asked for. -/
theorem follow_routine (access : Access) (name : String) (sig : Signature)
    (ds : List (Directive Label)) (plain : ∀ d ∈ ds, (d.instr? : Option (Instr Label)).isSome)
    (a a' : Assembler)
    (h : Succeeds (follow ([.beginRoutine access name sig] ++ ds ++ [.endRoutine])) a () a') :
    ∃ routine : Routine, routine.Holds access name sig (ds.filterMap Directive.instr?) ∧
      a.routines.any (·.answersTo name sig.descriptor) = false ∧
      a' = { a with routines := a.routines.push routine, current := none } := by
  obtain ⟨-, -, -, once, rfl⟩ := (follow_routine_iff access name sig ds plain a a').mp h
  refine ⟨_, OpenRoutine.finished_holds _ _ (OpenRoutine.alike_afterAll _ _) _ ?_, once, rfl⟩
  rw [OpenRoutine.afterAll_code]
  exact filterMap_instr?_map _ ds

/-- The routine of a method is its body between a beginning and an end. -/
theorem emitMethodRoutine_iff_follow (name : String) (m : Method) (a a' : Assembler) :
    Succeeds (emitMethodRoutine name m) a () a' ↔ (methodBody m : Script Label).stop = none ∧
      Succeeds (follow ([.beginRoutine .internal name .dispatch] ++ (methodBody m).calls ++
        [.endRoutine])) a () a' := by
  have stop_iff : (methodRoutine name m : Script Label).stop = none ↔
      (methodBody m : Script Label).stop = none := by
    simp [methodRoutine, append_stop_eq_none_iff]
  rw [emitMethodRoutine_eq, emit_iff, stop_iff]
  refine and_congr_right fun stop => ?_
  have front : (⟨[.beginRoutine .internal name .dispatch], none⟩ ++ methodBody m :
      Script Label).stop = none := (append_stop_eq_none_iff _ _).mpr ⟨rfl, stop⟩
  rw [methodRoutine, append_calls _ _ front, append_calls _ _ rfl]

theorem emitMethodRoutine_holds (name : String) (m : Method) (a a' : Assembler)
    (h : Succeeds (emitMethodRoutine name m) a () a') :
    m.Callable ∧ ∃ routine : Routine, routine.Holds .internal name .dispatch m.code ∧
      a.routines.any (·.answersTo name Signature.dispatch.descriptor) = false ∧
      a' = { a with routines := a.routines.push routine, current := none } := by
  obtain ⟨stop, run⟩ := (emitMethodRoutine_iff_follow name m a a').mp h
  obtain ⟨callable, plain, -⟩ := methodBody_adds (L := Label) (τ := Label) m stop
  obtain ⟨routine, holds, rest⟩ := follow_routine _ _ _ _ plain a a' run
  rw [(methodBody_adds (L := Label) (τ := Nat) m stop).2.2] at holds
  exact ⟨callable, routine, holds, rest⟩

def initializerSite (base : String) : CallSite :=
  { kind := .special, owner := base, name := RoutineName.initializer, sig := .initializer }

def initializerCode (base : String) : List (Instr τ) :=
  [.loadLocal Slot.self, .call (initializerSite base), .retVoid]

theorem emitInitializer_holds (base : String) (a a' : Assembler)
    (h : Succeeds (emitInitializer base) a () a') :
    ∃ routine : Routine,
      routine.Holds .exported RoutineName.initializer .initializer (initializerCode base) ∧
      a.routines.any
        (·.answersTo RoutineName.initializer Signature.initializer.descriptor) = false ∧
      a' = { a with routines := a.routines.push routine, current := none } := by
  rw [emitInitializer_eq] at h
  exact follow_routine _ _ _
    [.loadLocal Slot.self, .invoke .special base RoutineName.initializer .initializer, .ret .void]
    (by simp [Directive.instr?]) a a' h

end TokenDispatch
