import TokenDispatch.Proofs.Casts
import TokenDispatch.Proofs.GeneratedCode
import TokenDispatch.Proofs.Runs

/-!
What calling a method directly means: its receiver and its arguments are coerced to the types it
declares, the call is made, and its result is handed back as one reference. The code of the method
leaves on the stack exactly the operands that this calls for, and faults where it does.
-/

namespace TokenDispatch

/-- Elements of an argument array as parameters declare them, from a position on. -/
def Hierarchy.coerceElements (h : Hierarchy) (arguments : Value) :
    List Ty → Nat → Except Fault (List Operand)
  | [], _ => .ok []
  | param :: params, position => do
      let item ← arguments.element (.ofNat position)
      let operand ← h.coerce item param
      return operand :: (← h.coerceElements arguments params (position + 1))

/-- The result of a call as one reference: null where there is none, a primitive in its box. -/
def Operand.answer : Option Operand → Value
  | none => .null
  | some operand => operand.toValue

/-- Whether a call result is of the kind that the declared type stands for. -/
def Ty.Gives : Ty → Option Operand → Prop
  | .void, result => result = none
  | .prim kind, result => ∃ x : Primitive, result = some (.prim x) ∧ x.kind = kind
  | .named _, result | .array _, result => ∃ v, result = some (.ref v)

namespace Method

/-- The receiver of a method as its target declares it; a static method has none. -/
def coerceReceiver (m : Method) (h : Hierarchy) (receiver : Value) :
    Except Fault (Option Value) :=
  if m.shape = .static then .ok none
  else do
    h.checkCast receiver m.target
    return some receiver

/-- Coercion of the receiver, then of the arguments in their order. -/
def operands (m : Method) (h : Hierarchy) (receiver arguments : Value) :
    Except Fault (Option Value × List Operand) := do
  let target ← m.coerceReceiver h receiver
  return (target, ← h.coerceElements arguments m.params 0)

/-- The evaluation of a method, whoever answers its call. -/
def evaluate (m : Method) (h : Hierarchy)
    (call : Option Value → List Operand → Exec (Option Operand)) (receiver arguments : Value) :
    Exec Value := do
  let (target, args) ← m.operands h receiver arguments
  return Operand.answer (← call target args)

end Method

theorem Method.evaluate_apply (m : Method) (h : Hierarchy)
    (call : Option Value → List Operand → Exec (Option Operand)) (receiver arguments : Value)
    (w : World) :
    m.evaluate h call receiver arguments w =
      match m.operands h receiver arguments with
      | .error fault => (.error fault, w)
      | .ok (target, args) =>
          match call target args w with
          | (.ok result, u) => (.ok (Operand.answer result), u)
          | (.error fault, u) => (.error fault, u) := by
  rw [evaluate, Exec.bind_apply, Exec.lift_apply]
  cases m.operands h receiver arguments with
  | error fault => rfl
  | ok operands =>
      dsimp only
      rw [Exec.bind_apply]
      obtain ⟨fault | result, u⟩ := call operands.1 operands.2 w <;> rfl

/-- The call of a method in an environment, by the shape of the method. -/
def Environment.invoke (env : Environment) (m : Method) :
    Option Value → List Operand → Exec (Option Operand)
  | none, args => env.invokeStatic m.target.text m.name m.signature args
  | some receiver, args =>
      if m.shape = .interface then
        env.invokeInterface m.target.text m.name m.signature receiver args
      else env.invokeVirtual m.target.text m.name m.signature receiver args

/-- The direct call of a method, with no generated code between the caller and the environment. -/
def Method.direct (m : Method) (env : Environment) (receiver arguments : Value) : Exec Value :=
  m.evaluate env.hierarchy (env.invoke m) receiver arguments

/-! Stack code. -/

namespace Frame

variable (f : Frame) (h : Hierarchy)

/-- A frame some instructions later, with another stack. -/
def advance (count : Nat) (stack : List Operand) : Frame :=
  { f with position := f.position + count, stack := stack }

theorem next_unbox (kind : Prim) (v : Value) (s : List Operand) (top : f.stack = .ref v :: s) :
    f.next.exec h (.unbox kind) = (v.unbox kind).map fun x => f.advance 1 (.prim x :: s) := by
  rw [exec, f.next.popReference_eq v s top, except_ok_bind]
  dsimp only
  cases v.unbox kind <;> rfl

theorem next_checkCast (target : Ty) (v : Value) (s : List Operand)
    (top : f.stack = .ref v :: s) :
    f.next.exec h (.checkCast target) =
      (h.checkCast v target).map fun _ => f.advance 1 (.ref v :: s) := by
  rw [exec, f.next.popReference_eq v s top, except_ok_bind]
  dsimp only
  cases h.checkCast v target <;> rfl

theorem next_arrayLoad (items : Value) (index : Int32) (s : List Operand)
    (top : f.stack = .int index :: .ref items :: s) :
    f.next.exec h .arrayLoad =
      (items.element index).map fun item => f.advance 1 (.ref item :: s) := by
  rw [exec, f.next.popInt_eq index _ top, except_ok_bind]
  dsimp only
  rw [popReference_eq _ items s rfl, except_ok_bind]
  dsimp only
  cases items.element index <;> rfl

theorem next_loadLocal (slot : Nat) (operand : Operand) (found : f.locals[slot]? = some operand) :
    f.next.exec h (.loadLocal slot) = .ok (f.advance 1 (operand :: f.stack)) := by
  have same : f.next.locals[slot]? = some operand := found
  simp only [exec, same]
  rfl

theorem execAll_singleton (i : Instr Nat) : f.execAll h [i] = f.next.exec h i :=
  bind_pure _

end Frame

namespace Hierarchy

variable (h : Hierarchy)

/-- Every reference is below the root class, so a cast to it never fails. -/
theorem checkCast_object (v : Value) : h.checkCast v .object = .ok () :=
  (h.checkCast_eq_ok_iff v .object).mpr ⟨rfl, h.isInstance_object v⟩

theorem coerce_of_reference (v : Value) (target : Ty) (reference : target.isReference = true) :
    h.coerce v target = (h.checkCast v target).map fun _ => .ref v := by
  have coerce_eq : h.coerce v target = (h.checkCast v target *> pure (.ref v)) := by
    cases target with
    | void | prim _ => cases reference
    | named _ | array _ => rfl
  rw [coerce_eq]
  cases h.checkCast v target <;> rfl

end Hierarchy

namespace Frame

variable (f : Frame) (h : Hierarchy)

theorem advance_advance (m n : Nat) (s t : List Operand) :
    (f.advance m s).advance n t = f.advance (m + n) t := by
  simp only [advance, Nat.add_assoc]

theorem advance_zero (s : List Operand) (top : f.stack = s) : f.advance 0 s = f := by
  cases top
  rfl

theorem execAll_cast (target : Ty) (v : Value) (s : List Operand) (top : f.stack = .ref v :: s) :
    f.execAll h (if target.isObject then [] else [.checkCast target]) =
      (h.checkCast v target).map fun _ =>
        f.advance (if target.isObject then 0 else 1) (.ref v :: s) := by
  by_cases object : target.isObject
  · rw [if_pos object, if_pos object, eq_of_beq object, h.checkCast_object]
    change Except.ok f = .ok (f.advance 0 _)
    rw [f.advance_zero _ top]
  · rw [if_neg object, if_neg object, execAll_singleton, next_checkCast f h _ v s top]

theorem execAll_narrowing (target : Ty) (value : target ≠ .void) (v : Value) (s : List Operand)
    (top : f.stack = .ref v :: s) :
    f.execAll h target.narrowingCode =
      (h.coerce v target).map fun operand =>
        f.advance (target.narrowingCode (τ := Nat)).length (operand :: s) := by
  cases target with
  | void => exact absurd rfl value
  | prim kind =>
      change f.execAll h [.unbox kind] = _
      rw [execAll_singleton, next_unbox f h kind v s top]
      change _ = (Operand.prim <$> v.unbox kind).map _
      cases v.unbox kind <;> rfl
  | named _ | array _ =>
      rw [h.coerce_of_reference _ _ rfl, Ty.narrowingCode_of_reference _ rfl,
        execAll_cast f h _ v s top]
      split
      · cases h.checkCast v _ <;> rfl
      · cases h.checkCast v _ <;> rfl

/-- Taking one element as its declared type. -/
theorem execAll_element (param : Ty) (value : param ≠ .void) (position : Nat) (arguments : Value)
    (found : f.locals[Slot.arguments]? = some (.ref arguments)) :
    f.execAll h ([.loadLocal Slot.arguments, .pushInt (.ofNat position), .arrayLoad] ++
        param.narrowingCode) =
      (do
        let item ← arguments.element (.ofNat position)
        let operand ← h.coerce item param
        return f.advance (3 + (param.narrowingCode (τ := Nat)).length) (operand :: f.stack)) := by
  rw [execAll_append]
  have load : f.execAll h [.loadLocal Slot.arguments, .pushInt (.ofNat position), .arrayLoad] =
      (arguments.element (.ofNat position)).map fun item =>
        f.advance 3 (.ref item :: f.stack) := by
    rw [execAll, next_loadLocal f h _ _ found, except_ok_bind, execAll]
    change ((f.advance 2 (.int (.ofNat position) :: .ref arguments :: f.stack)).execAll h
      [.arrayLoad]) = _
    rw [execAll_singleton, next_arrayLoad _ h arguments _ f.stack rfl]
    rfl
  rw [load]
  cases arguments.element (.ofNat position) with
  | error fault => rfl
  | ok item =>
      change (f.advance 3 _).execAll h _ = _
      rw [execAll_narrowing _ h param value item f.stack rfl]
      change _ = (do
        let operand ← h.coerce item param
        return f.advance (3 + (param.narrowingCode (τ := Nat)).length) (operand :: f.stack))
      cases h.coerce item param with
      | error fault => rfl
      | ok operand => exact congrArg Except.ok (advance_advance f _ _ _ _)

/-- The arguments end up on the stack with the last in front. -/
theorem execAll_elements (params : List Ty) (values : ∀ param ∈ params, param ≠ .void)
    (position : Nat) (arguments : Value)
    (found : f.locals[Slot.arguments]? = some (.ref arguments)) :
    f.execAll h (elementsCode params position) =
      (h.coerceElements arguments params position).map fun operands =>
        f.advance (elementsCode (τ := Nat) params position).length
          (operands.reverse ++ f.stack) := by
  induction params generalizing f position with
  | nil =>
      change Except.ok f = .ok (f.advance 0 f.stack)
      rw [f.advance_zero _ rfl]
  | cons param params ih =>
      obtain ⟨value, values⟩ := List.forall_mem_cons.mp values
      rw [elementsCode, execAll_append, execAll_element f h param value position arguments found,
        Hierarchy.coerceElements]
      cases arguments.element (.ofNat position) with
      | error fault => rfl
      | ok item =>
          simp only [except_ok_bind]
          cases h.coerce item param with
          | error fault => rfl
          | ok operand =>
              simp only [except_ok_bind]
              change (f.advance _ _).execAll h _ = _
              rw [ih (f.advance _ (operand :: f.stack)) values (position + 1) found]
              cases h.coerceElements arguments params (position + 1) with
              | error fault => rfl
              | ok operands =>
                  refine congrArg Except.ok ((advance_advance f _ _ _ _).trans ?_)
                  have length_eq (xs ys : List (Instr Nat)) (load push take : Instr Nat) :
                      ([load, push, take] ++ xs ++ ys).length = 3 + xs.length + ys.length := by
                    simp only [List.length_append, List.length_cons, List.length_nil]
                  rw [length_eq]
                  simp [advance]

/-- The operands of a call as they lie on the stack, the last in front. -/
def laid (target : Option Value) (args : List Operand) : List Operand :=
  args.reverse ++ (target.map Operand.ref).toList

theorem execAll_receiver (m : Method) (callable : m.Callable) (receiver : Value)
    (found : f.locals[Slot.receiver]? = some (.ref receiver)) :
    f.execAll h m.receiverCode =
      (m.coerceReceiver h receiver).map fun target =>
        f.advance (m.receiverCode (τ := Nat)).length (laid target [] ++ f.stack) := by
  rw [Method.receiverCode, Method.coerceReceiver]
  by_cases static : m.shape = .static
  · rw [if_pos static, if_pos static]
    change Except.ok f = .ok (f.advance 0 f.stack)
    rw [f.advance_zero _ rfl]
  · rw [if_neg static, if_neg static, execAll, next_loadLocal f h _ _ found, except_ok_bind,
      Ty.narrowingCode_of_reference m.target (by rw [callable.owner]; rfl),
      execAll_cast _ h m.target receiver f.stack rfl]
    cases h.checkCast receiver m.target with
    | error fault => rfl
    | ok _ =>
        refine (congrArg Except.ok (advance_advance f _ _ _ _)).trans (congrArg Except.ok ?_)
        by_cases object : m.target.isObject
        · rw [if_pos object, if_pos object]
          rfl
        · rw [if_neg object, if_neg object]
          rfl

/-- The code before the call leaves the operands of the call on the stack. -/
theorem execAll_operands (m : Method) (callable : m.Callable) (receiver arguments : Value)
    (found_receiver : f.locals[Slot.receiver]? = some (.ref receiver))
    (found_arguments : f.locals[Slot.arguments]? = some (.ref arguments)) :
    f.execAll h (m.receiverCode ++ elementsCode m.params 0) =
      (m.operands h receiver arguments).map fun (target, args) =>
        f.advance (m.receiverCode ++ elementsCode (τ := Nat) m.params 0).length
          (laid target args ++ f.stack) := by
  rw [execAll_append, execAll_receiver f h m callable receiver found_receiver, Method.operands]
  cases m.coerceReceiver h receiver with
  | error fault => rfl
  | ok target =>
      change (f.advance _ _).execAll h _ = _
      rw [execAll_elements (f.advance _ (laid target [] ++ f.stack)) h m.params callable.params 0
        arguments found_arguments, except_ok_bind]
      cases h.coerceElements arguments m.params 0 with
      | error fault => rfl
      | ok args =>
          refine (congrArg Except.ok (advance_advance f _ _ _ _)).trans (congrArg Except.ok ?_)
          simp [advance, laid]

end Frame

theorem Instr.Loads.isStraight {i : Instr Nat} (h : i.Loads) : i.isStraight = true := by
  cases h <;> rfl

end TokenDispatch
