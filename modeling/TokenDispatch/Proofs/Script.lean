import TokenDispatch.Generation

/-!
The generator as scripts: what each of its parts asks of an emitter is a list of directives, and the
error that a malformed method stops it with. The equations hold for every emitter, so facts about
generated code can be read off the lists, and an emitter is asked only how it follows a list.
-/

namespace TokenDispatch

/-- Directives in the order they are given, and the error that comes after them, if any. -/
structure Script (L : Type) where
  calls : List (Directive L)
  stop : Option EmitError := none

namespace Script

variable {σ L O : Type} [Emitter σ L O]

open Emitter

instance : Append (Script L) where
  append s t :=
    match s.stop with
    | none => ⟨s.calls ++ t.calls, t.stop⟩
    | some _ => s

theorem append_def (s t : Script L) :
    s ++ t = match s.stop with
      | none => ⟨s.calls ++ t.calls, t.stop⟩
      | some _ => s := rfl

theorem append_stop_eq_none_iff (s t : Script L) :
    (s ++ t).stop = none ↔ s.stop = none ∧ t.stop = none := by
  rw [append_def]
  split <;> simp_all

theorem append_calls (s t : Script L) (h : s.stop = none) :
    (s ++ t).calls = s.calls ++ t.calls := by
  rw [append_def, h]

def all (scripts : List (Script L)) : Script L := scripts.foldr (· ++ ·) ⟨[], none⟩

/-- Gives directives to an emitter one after another. -/
def follow : List (Directive L) → Emit σ Unit
  | [] => pure ()
  | d :: rest => do
      perform d
      follow rest

def emit (s : Script L) : Emit σ Unit := do
  follow s.calls
  match s.stop with
  | none => pure ()
  | some e => throw e

theorem follow_append (ds es : List (Directive L)) :
    (follow (ds ++ es) : Emit σ Unit) = (do follow ds; follow es) := by
  induction ds with
  | nil => simp [follow]
  | cons d ds ih => simp only [List.cons_append, follow, ih, bind_assoc]

theorem follow_singleton (d : Directive L) : (follow [d] : Emit σ Unit) = perform d := by
  simp [follow]

theorem emit_append (s t : Script L) :
    ((s ++ t).emit : Emit σ Unit) = (do s.emit; t.emit) := by
  obtain ⟨calls, stop⟩ := s
  cases stop with
  | none => simp [append_def, emit, follow_append]
  | some e => simp [append_def, emit]

theorem forM_emit {α : Type} (s : α → Script L) (xs : List α) :
    (xs.forM fun x => ((s x).emit : Emit σ Unit)) = (all (xs.map s)).emit := by
  induction xs with
  | nil => simp [all, emit, follow, List.forM]
  | cons x xs ih =>
      change _ = (s x ++ all (xs.map s)).emit
      rw [List.forM, ih, emit_append]

theorem forM_follow {α : Type} (f : α → List (Directive L)) (xs : List α) :
    (xs.forM fun x => (follow (f x) : Emit σ Unit)) = follow (xs.flatMap f) := by
  induction xs with
  | nil => rfl
  | cons x xs ih => rw [List.forM, ih, List.flatMap_cons, follow_append]

/-- A script that nothing stops. -/
theorem emit_of_calls (ds : List (Directive L)) : (emit ⟨ds, none⟩ : Emit σ Unit) = follow ds := by
  simp [emit]

/-! The parts of a method's routine. -/

def narrowing (target : Ty) : Script L :=
  match target with
  | .prim kind => ⟨[.unbox kind], none⟩
  | .void => ⟨[], some .narrowingToVoid⟩
  | target => ⟨if target.isObject then [] else [.checkCast target], none⟩

def element (param : Ty) (position : Nat) : Script L :=
  if indexLimit ≤ position then ⟨[], some (.parameterIndex position)⟩
  else ⟨[.loadLocal Slot.arguments, .pushInt (.ofNat position), .arrayLoad], none⟩ ++
    narrowing param

def elements (params : List Ty) : Script L :=
  all (params.zipIdx.map fun (param, position) => element param position)

def receiver (m : Method) : Script L :=
  if m.shape = .static then ⟨[], none⟩
  else ⟨[.loadLocal Slot.receiver], none⟩ ++ narrowing m.target

def targetCall (m : Method) : Script L :=
  match m.target.className? with
  | none => ⟨[], some (.callTarget m.target.text)⟩
  | some owner =>
      receiver m ++ elements m.params ++
        ⟨[.invoke m.shape.kind owner m.name m.signature], none⟩

def reference (ret : Ty) : Script L :=
  match ret with
  | .void => ⟨[.pushNull], none⟩
  | .prim kind => ⟨[.box kind], none⟩
  | .named _ | .array _ => ⟨[], none⟩

def methodBody (m : Method) : Script L :=
  targetCall m ++ reference m.ret ++ ⟨[.ret .reference], none⟩

def methodRoutine (name : String) (m : Method) : Script L :=
  ⟨[.beginRoutine .internal name .dispatch], none⟩ ++ methodBody m ++ ⟨[.endRoutine], none⟩

/-- The routine of a method that nothing stops. -/
theorem methodRoutine_of_whole (name : String) (m : Method)
    (h : (targetCall m ++ reference m.ret : Script L).stop = none) :
    (methodRoutine name m : Script L) =
      ⟨.beginRoutine .internal name .dispatch :: ((targetCall m ++ reference m.ret).calls ++
        [.ret .reference, .endRoutine]), none⟩ := by
  rw [methodRoutine, methodBody]
  generalize targetCall m ++ reference m.ret = body at h ⊢
  obtain ⟨calls, stop⟩ := body
  cases h
  simp [append_def]

/-- The routine of a method that is broken off inside. -/
theorem methodRoutine_of_stop (name : String) (m : Method) {e : EmitError}
    (h : (targetCall m ++ reference m.ret : Script L).stop = some e) :
    (methodRoutine name m : Script L) =
      ⟨.beginRoutine .internal name .dispatch :: (targetCall m ++ reference m.ret).calls,
        some e⟩ := by
  rw [methodRoutine, methodBody]
  generalize targetCall m ++ reference m.ret = body at h ⊢
  obtain ⟨calls, stop⟩ := body
  cases h
  simp [append_def]

theorem emitNarrowing_eq (target : Ty) :
    (emitNarrowing target : Emit σ Unit) = (narrowing target).emit := by
  cases target with
  | void => rfl
  | prim kind => simp [emitNarrowing, narrowing, emit, follow]
  | named _ | array _ =>
      simp only [emitNarrowing, narrowing]
      split <;> simp [emit, follow]

theorem emitElement_eq (param : Ty) (position : Nat) :
    (emitElement param position : Emit σ Unit) = (element param position).emit := by
  by_cases h : indexLimit ≤ position
  · rw [emitElement, element, if_pos h, if_pos h]
    rfl
  · simp only [emitElement, element, h, if_false, emit_append, emit_of_calls, follow,
      emitNarrowing_eq, bind_assoc, pure_bind]

theorem emitElements_eq (params : List Ty) :
    (emitElements params : Emit σ Unit) = (elements params).emit := by
  simp only [emitElements, elements, emitElement_eq, forM_emit]

theorem emitTargetCall_eq (m : Method) :
    (emitTargetCall m : Emit σ Unit) = (targetCall m).emit := by
  rw [emitTargetCall, targetCall, receiver]
  cases m.target.className? with
  | none => simp [emit, follow]
  | some owner =>
      by_cases static : m.shape = .static
      · simp [static, emit_append, emit_of_calls, follow, emitElements_eq]
      · simp [static, emit_append, emit_of_calls, follow, emitElements_eq, emitNarrowing_eq]

theorem emitReference_eq (ret : Ty) :
    (emitReference ret : Emit σ Unit) = (reference ret).emit := by
  cases ret <;> simp [emitReference, reference, emit, follow]

theorem emitMethodRoutine_eq (name : String) (m : Method) :
    (emitMethodRoutine name m : Emit σ Unit) = (methodRoutine name m).emit := by
  simp [emitMethodRoutine, methodRoutine, methodBody, emit_append, emit_of_calls, follow,
    emitTargetCall_eq, emitReference_eq]

/-! The initializer. -/

def initializer (base : String) : List (Directive L) :=
  [.beginRoutine .exported RoutineName.initializer .initializer, .loadLocal Slot.self,
    .invoke .special base RoutineName.initializer .initializer, .ret .void, .endRoutine]

/-! The parts of the entry point. Its labels are made between the two scripts. -/

def entryOpening : List (Directive L) :=
  [.beginRoutine .exported RoutineName.entry .dispatch, .loadLocal Slot.self,
    .loadLocal Slot.token, .loadLocal Slot.receiver, .loadLocal Slot.arguments,
    .loadLocal Slot.token]

def tokenSwitch (form : SwitchForm) (default : L) (cases : List (Int32 × L)) : Directive L :=
  let keys := cases.map (·.1)
  match keys.head?, keys.getLast?, form.prefersTable keys with
  | some low, some high, true =>
      .tableSwitch low default
        (tableTargets default low.toInt (high.toInt - low.toInt + 1).toNat cases)
  | _, _, _ => .lookupSwitch default cases

def branch (label : L) (kind : CallKind) (unit routine : String) : List (Directive L) :=
  [.placeLabel label, .invoke kind unit routine .dispatch, .ret .reference]

def entryBranches (unit : String) (default : L) (arms : List ((Int32 × L) × String)) :
    List (Directive L) :=
  (arms.flatMap fun ((_, label), routine) => branch label .special unit routine) ++
    branch default .virtual unit RoutineName.fallback ++ [.endRoutine]

theorem emitTokenSwitch_eq (form : SwitchForm) (default : L) (cases : List (Int32 × L)) :
    (emitTokenSwitch form default cases : Emit σ Unit) =
      perform (tokenSwitch form default cases) := by
  simp only [emitTokenSwitch, tokenSwitch]
  generalize (cases.map (·.1)).head? = low
  generalize (cases.map (·.1)).getLast? = high
  generalize form.prefersTable (cases.map (·.1)) = table
  cases low <;> cases high <;> cases table <;> rfl

theorem emitBranch_eq (label : L) (kind : CallKind) (unit routine : String) :
    (emitBranch label kind unit routine : Emit σ Unit) =
      follow (branch label kind unit routine) := by
  simp [emitBranch, branch, follow]

/-- The entry point; its labels are made once the operands are loaded. -/
theorem emitEntry_eq (unit : String) (index : TokenIndex) (routines : List String)
    (form : SwitchForm) (h : routines.length = index.size) :
    (emitEntry unit index routines form : Emit σ Unit) = (do
      follow entryOpening
      let default ← fresh
      let cases ← index.keys.mapM fun key => Prod.mk key <$> fresh
      perform (tokenSwitch form default cases)
      follow (entryBranches unit default (cases.zip routines))) := by
  simp [emitEntry, h, entryOpening, entryBranches, follow, follow_append, emitTokenSwitch_eq,
    emitBranch_eq, forM_follow]

theorem emitInitializer_eq (base : String) :
    (emitInitializer base : Emit σ Unit) = follow (initializer base) := by
  simp [emitInitializer, initializer, follow]

end Script

/-! How programs of an emitter run, and the passes that generation is made of. -/

namespace Emit

variable {σ α β : Type} {x : Emit σ α} {s t : σ}

theorem bind_of_ok (f : α → Emit σ β) {a : α}
    (h : @Eq (Except EmitError α × σ) (x s) (.ok a, t)) : (x >>= f) s = f a t := by
  change (ExceptT.bindCont f (x s).1 : StateM σ (Except EmitError β)) (x s).2 = _
  rw [h]
  rfl

theorem bind_of_error (f : α → Emit σ β) {e : EmitError}
    (h : @Eq (Except EmitError α × σ) (x s) (.error e, t)) :
    @Eq (Except EmitError β × σ) ((x >>= f) s) (.error e, t) := by
  change (ExceptT.bindCont f (x s).1 : StateM σ (Except EmitError β)) (x s).2 = _
  rw [h]
  rfl

end Emit

section

variable {σ L O : Type} [Emitter σ L O] {options : Options} {unit : String} {s t : σ}

theorem generate_of_unopened {e : EmitError} (methods : List Method)
    (opening : @Eq (Except EmitError Unit × σ) (emitOpening options unit s) (.error e, t)) :
    generate options unit methods s = ⟨.error e, methods, t⟩ := by
  rw [generate, opening]

theorem generate_of_long (methods : List Method) (long : Token.limit < methods.length)
    (opening : @Eq (Except EmitError Unit × σ) (emitOpening options unit s) (.ok (), t)) :
    generate options unit methods s =
      ⟨.error (.tooManyMethods methods.length), markTokens methods, t⟩ := by
  rw [generate, opening]
  simp only [numberMethods_eq, if_neg (Nat.not_le.mpr long)]

theorem generate_of_routines {output : Except EmitError O} {u : σ} (methods : List Method)
    (count_le : methods.length ≤ Token.limit)
    (opening : @Eq (Except EmitError Unit × σ) (emitOpening options unit s) (.ok (), t))
    (routines : @Eq (Except EmitError O × σ)
      (emitRoutines options unit (.ofCount methods.length) (markTokens methods) t) (output, u)) :
    generate options unit methods s =
      ⟨output.map (TokenIndex.ofCount methods.length, ·), markTokens methods, u⟩ := by
  rw [generate, opening]
  simp only [numberMethods_eq, if_pos count_le]
  rw [routines]

end

end TokenDispatch
