import TokenDispatch.Proofs.Dispatch

/-!
Invoking a token is calling its method directly, with the same result, the same calls outside and
the same heap, for every receiver and every array of arguments. The one exception is a method that
stands where the fallback of the unit's own base does: its call is captured by the base, and then
some invocation differs from the direct call.
-/

namespace TokenDispatch

/-! Arguments that fit. -/

/-- A primitive that can be unboxed as a given kind. -/
def Prim.sample : Prim → Primitive
  | boolean => .boolean false
  | char => .char 'a'
  | _ => .int 0

/-- A value that the coercion to a declared type accepts. -/
def Ty.sample : Ty → Value
  | prim kind => .boxed kind.sample
  | void | named _ | array _ => .null

namespace Hierarchy

variable (h : Hierarchy)

theorem checkCast_null (target : Ty) (reference : target.isReference = true) :
    h.checkCast .null target = .ok () := by
  have instance_ : h.isInstance target .null = true := by
    cases target with
    | void | prim _ => cases reference
    | named _ => rfl
    | array element => cases element <;> rfl
  rw [checkCast, reference, instance_]
  rfl

theorem coerce_sample (ty : Ty) (value : ty ≠ .void) :
    ∃ operand, h.coerce ty.sample ty = .ok operand := by
  cases ty with
  | void => exact absurd rfl value
  | prim kind => cases kind <;> exact ⟨_, rfl⟩
  | named _ | array _ =>
      refine ⟨.ref .null, ?_⟩
      change h.coerce .null _ = _
      rw [h.coerce_of_reference _ _ rfl, h.checkCast_null _ rfl]
      rfl

end Hierarchy

theorem Value.element_of_array (items : List Value) (position : Nat) (low : position < indexLimit)
    (item : Value) (found : items[position]? = some item) :
    (Value.array items).element (.ofNat position) = .ok item := by
  have index : (Int32.ofNat position).toInt = position := Int32.toInt_ofNat_of_lt low
  unfold element
  dsimp only
  rw [index, if_pos (Int.natCast_nonneg position), Int.toNat_natCast, found]

/-- Arguments that are picked for the parameters are coerced without a fault. -/
theorem Hierarchy.coerceElements_sample (h : Hierarchy) (items : List Value) (params : List Ty)
    (start : Nat) (values : ∀ param ∈ params, param ≠ .void)
    (positions : ∀ position < params.length, start + position < indexLimit)
    (picked : ∀ position param, params[position]? = some param →
      items[start + position]? = some param.sample) :
    ∃ args, h.coerceElements (.array items) params start = .ok args := by
  induction params generalizing start with
  | nil => exact ⟨[], rfl⟩
  | cons param params ih =>
      obtain ⟨value, values⟩ := List.forall_mem_cons.mp values
      have low := positions 0 (Nat.zero_lt_succ _)
      have item := Value.element_of_array items start low _ (picked 0 param rfl)
      obtain ⟨operand, coerced⟩ := h.coerce_sample param value
      obtain ⟨args, rest⟩ := ih (start + 1) values
        (fun position lt => by
          have := positions (position + 1) (Nat.succ_lt_succ lt)
          omega)
        (fun position param found => by
          rw [← picked (position + 1) param found]
          congr 1
          omega)
      rw [coerceElements, item, except_ok_bind, coerced, except_ok_bind, rest]
      exact ⟨_, rfl⟩

namespace Dispatcher

variable {d : Dispatcher} {options : Options} {unit : String} {methods : List Method}
  {env : Environment} {contract : Contract}

/-- An invocation does one thing only. -/
theorem Answers.unique {token : Int32} {receiver arguments : Value} {x y : Exec Value}
    (hx : d.Answers token receiver arguments x) (hy : d.Answers token receiver arguments y) :
    x = y := by
  funext w
  obtain ⟨m, run_x⟩ := hx w
  obtain ⟨n, run_y⟩ := hy w
  have same := ((run_x (max m n)).1 (Nat.le_max_left m n)).symm.trans
    ((run_y (max m n)).1 (Nat.le_max_right m n))
  obtain ⟨outcome, world⟩ := Prod.mk.inj same
  refine Prod.ext ?_ world
  cases left : (x w).1 with
  | ok v =>
      cases right : (y w).1 with
      | ok u =>
          rw [left, right] at outcome
          cases outcome
          rfl
      | error fault =>
          rw [left, right] at outcome
          cases outcome
  | error fault =>
      cases right : (y w).1 with
      | ok u =>
          rw [left, right] at outcome
          cases outcome
      | error other =>
          rw [left, right] at outcome
          cases outcome
          rfl

/-- A method that is called on an instance refuses the null receiver, and nothing happens. -/
theorem direct_null (m : Method) (env : Environment) (callable : m.Callable)
    (virtual : m.shape = .virtual) (w : World) :
    ∃ args, m.operands env.hierarchy .null (.array (m.params.map Ty.sample)) =
        .ok (some .null, args) ∧
      m.direct env .null (.array (m.params.map Ty.sample)) w =
        (.error (.nullReceiver m.target.text m.name), w) := by
  have receiver : m.coerceReceiver env.hierarchy .null = .ok (some .null) := by
    have reference : m.target.isReference = true := by rw [callable.owner]; rfl
    rw [Method.coerceReceiver, virtual, if_neg (by decide),
      env.hierarchy.checkCast_null _ reference]
    rfl
  obtain ⟨args, coerced⟩ := env.hierarchy.coerceElements_sample (m.params.map Ty.sample) m.params 0
    callable.params (by simpa using callable.positions) (fun position param found => by
      rw [Nat.zero_add, List.getElem?_map, found]
      rfl)
  have operands : m.operands env.hierarchy .null (.array (m.params.map Ty.sample)) =
      .ok (some .null, args) := by
    rw [Method.operands, receiver, except_ok_bind, coerced]
    rfl
  refine ⟨args, operands, ?_⟩
  rw [Method.direct, Method.evaluate_apply, operands]
  dsimp only
  have refused : env.invoke m (some .null) args w =
      (.error (.nullReceiver m.target.text m.name), w) := by
    rw [Environment.invoke, if_neg (by rw [virtual]; decide)]
    rfl
  rw [refused]

/-- The fallback of the base does not refuse the null receiver: it runs, or finds its operands
wrong. -/
theorem callFallback_ne_direct (p : Program) (args : List Operand) (owner name : String)
    (w : World) :
    p.callFallback args w ≠ (.error (.nullReceiver owner name), w) := by
  intro same
  obtain ⟨defect, -, failed⟩ | ⟨token, receiver, vs, ran⟩ := p.callFallback_cases args w
  · rw [failed] at same
    cases same
  · rw [ran] at same
    have calls := congrArg (fun u => u.calls.size) (Prod.mk.inj same).2
    have pushed : (p.contract.runFallback token receiver vs w).2.calls.size =
        w.calls.size + 1 := Array.size_push _
    omega

theorem Serves.direct_iff (serves : d.Serves options unit methods env contract)
    (position : Nat) (m : Method) (found : methods[position]? = some m) :
    (∀ receiver arguments, d.Answers (positionKey position) receiver arguments
      (m.direct env receiver arguments)) ↔ ¬ m.Captured unit options.base := by
  have answers := serves.answers_method position m found
  rw [serves.respond_eq m] at answers
  constructor
  · intro direct captured
    have callable := serves.lays.callable m (List.mem_of_getElem? found)
    obtain ⟨args, operands, refused⟩ := direct_null m env callable captured.1 {}
    have same := congrFun ((direct .null (.array (m.params.map Ty.sample))).unique
      (answers .null (.array (m.params.map Ty.sample)))) {}
    rw [refused, if_pos captured, Method.evaluate_apply, operands] at same
    dsimp only at same
    refine callFallback_ne_direct d.toProgram args m.target.text m.name {} ?_
    generalize d.callFallback args {} = outcome at same ⊢
    obtain ⟨fault | result, u⟩ := outcome
    · cases same
      rfl
    · cases same
  · intro free receiver arguments
    rw [if_neg free] at answers
    exact answers receiver arguments

/-- The call of a captured method goes to the fallback, with its arguments as operands. -/
theorem Serves.answers_captured (serves : d.Serves options unit methods env contract)
    (position : Nat) (m : Method) (found : methods[position]? = some m)
    (captured : m.Captured unit options.base) (receiver arguments : Value) :
    d.Answers (positionKey position) receiver arguments
      (m.evaluate env.hierarchy (fun _ args => d.callFallback args) receiver arguments) := by
  have answers := serves.answers_method position m found receiver arguments
  rw [serves.respond_eq m, if_pos captured] at answers
  exact answers

/-- The token of a position does what the direct call of its method does, unless the base captures
the method; then some invocation differs, since each goes to the fallback. Every other token is the
fallback's. Where every walk up superclasses ends, all of these come to an end; where one does not,
an invocation that looks for its target on it is as endless as the direct call (`Answers`). -/
theorem invoke_refines_direct_iff (steps : Nat) (options : Options) (unit : String)
    (methods : List Method) (env : Environment) (contract : Contract) (w v : World)
    (marked : List Method) (d : Dispatcher)
    (compiled : compile steps options unit methods env contract w = (marked, .done d, v)) :
    (∀ position m, methods[position]? = some m →
      ((∀ receiver arguments, d.Answers (positionKey position) receiver arguments
        (m.direct env receiver arguments)) ↔ ¬ m.Captured unit options.base) ∧
      (m.Captured unit options.base → ∀ receiver arguments,
        d.Answers (positionKey position) receiver arguments
          (m.evaluate env.hierarchy (fun _ args => d.callFallback args) receiver arguments))) ∧
    ∀ token, (∀ position < methods.length, token ≠ positionKey position) →
      ∀ receiver arguments,
        d.Answers token receiver arguments (contract.runFallback token receiver arguments) := by
  have serves := compile_serves steps options unit methods env contract w v marked d compiled
  refine ⟨fun position m found => ⟨serves.direct_iff position m found, fun captured => ?_⟩, ?_⟩
  · exact serves.answers_captured position m found captured
  · exact serves.answers_other

/-! A unit with a method that its base captures, and one that is called as it should be. -/

def capturedMethod : Method :=
  { name := RoutineName.fallback
    declaring := .named Contract.defaultName
    params := [.prim .int, .object, .objectArray]
    ret := .object }

def freeMethod : Method :=
  { name := "length", declaring := .named ClassName.string, params := [], ret := .prim .int }

theorem invoke_refines_direct_iff_of_captured :
    ∃ marked d v,
      compile 8 {} "U" [capturedMethod, freeMethod] {} .rejecting {} = (marked, .done d, v) ∧
      (¬ ∀ receiver arguments, d.Answers (positionKey 0) receiver arguments
        (capturedMethod.direct {} receiver arguments)) ∧
      ∀ receiver arguments, d.Answers (positionKey 1) receiver arguments
        (freeMethod.direct {} receiver arguments) := by
  obtain ⟨marked, d, v, compiled⟩ := compile_of_isDone 8 {} "U" [capturedMethod, freeMethod] {}
    .rejecting {} (by decide +kernel)
  have exact_ := (invoke_refines_direct_iff _ _ _ _ _ _ _ _ _ d compiled).1
  refine ⟨marked, d, v, compiled, fun direct => ?_, ?_⟩
  · exact (exact_ 0 capturedMethod rfl).1.mp direct (by decide +kernel)
  · exact (exact_ 1 freeMethod rfl).1.mpr (by decide +kernel)

end Dispatcher

end TokenDispatch
