import TokenDispatch.Proofs.Resolution

/-!
The run of a method's routine: its operands are coerced, one call is made, and the answer goes back
to the caller as a reference. The call is answered by the environment, except where it looks like
the fallback of the unit's own base; such a method is captured by the base.
-/

namespace TokenDispatch

/-- A method whose call is taken for the fallback of the base: a virtual call on the unit or on its
base, with the name and the descriptor of the fallback. -/
def Method.Captured (m : Method) (unit base : String) : Prop :=
  m.shape = .virtual ∧ (m.target.text = unit ∨ m.target.text = base) ∧
    m.name = RoutineName.fallback ∧ m.signature.descriptor = Signature.dispatch.descriptor

instance (m : Method) (unit base : String) : Decidable (m.Captured unit base) :=
  inferInstanceAs (Decidable (_ ∧ _))

theorem CodeUnit.link?_site (u : CodeUnit) (m : Method) :
    u.link? m.site = if m.Captured u.name u.base then some .fallback else none := by
  have kind_eq : m.site.kind = m.shape.kind := rfl
  have owner_eq : m.site.owner = m.target.text := rfl
  have names_iff : (namesFallback m.site = true) ↔ m.name = RoutineName.fallback ∧
      m.signature.descriptor = Signature.dispatch.descriptor := by
    rw [namesFallback, Bool.and_eq_true, beq_iff_eq, beq_iff_eq]
    rfl
  rw [link?]
  simp only [kind_eq, owner_eq]
  cases shape : m.shape with
  | static | interface =>
      have free : ¬ m.Captured u.name u.base := by simp [Method.Captured, shape]
      rw [if_neg free]
      rfl
  | virtual =>
      have captured_iff : m.Captured u.name u.base ↔
          ((m.target.text == u.name || m.target.text == u.base) &&
            namesFallback m.site) = true := by
        simp [Method.Captured, shape, names_iff]
      simp only [captured_iff]
      rfl

/-- Who answers the call of a method that stands in the unit of a program. -/
def Program.respond (p : Program) (m : Method) (target : Option Value) (args : List Operand) :
    Exec (Option Operand) :=
  if m.Captured p.unit.name p.unit.base then p.callFallback args else p.env.invoke m target args

namespace Program

variable (p : Program)

theorem callFallback_eq (token : Int32) (receiver arguments : Value) (w : World) :
    p.callFallback [.int token, .ref receiver, .ref arguments] w =
      ((p.contract.runFallback token receiver arguments w).1.map fun v => some (.ref v),
        (p.contract.runFallback token receiver arguments w).2) := by
  change (p.contract.runFallback token receiver arguments >>= fun v =>
    pure (some (Operand.ref v)) : Exec (Option Operand)) w = _
  rw [← Exec.map_apply, map_eq_pure_bind]

/-- The fallback of the base refuses operands that it does not take, or else it runs. -/
theorem callFallback_cases (args : List Operand) (w : World) :
    (∃ defect ∈ [Defect.fallbackToken, .fallbackOperand 1, .fallbackOperand 2],
      p.callFallback args w = (.error (.internal defect), w)) ∨
      ∃ token receiver arguments, p.callFallback args w =
        ((p.contract.runFallback token receiver arguments w).1.map fun v => some (.ref v),
          (p.contract.runFallback token receiver arguments w).2) := by
  cases token : args[0]?.bind Operand.int? with
  | none => exact .inl ⟨.fallbackToken, by simp, by simp only [callFallback, token]; rfl⟩
  | some n =>
      cases receiver : args[1]?.bind Operand.value? with
      | none =>
          refine .inl ⟨.fallbackOperand 1, by simp, ?_⟩
          simp only [callFallback, token, receiver]
          rfl
      | some v =>
          cases arguments : args[2]?.bind Operand.value? with
          | none =>
              refine .inl ⟨.fallbackOperand 2, by simp, ?_⟩
              simp only [callFallback, token, receiver, arguments]
              rfl
          | some vs =>
              refine .inr ⟨n, v, vs, ?_⟩
              rw [← p.callFallback_eq]
              simp only [callFallback, token, receiver, arguments]
              rfl

end Program

/-- Whoever answers the call of a method, the result is of the kind that the method declares. -/
theorem Program.respond_gives (p : Program) (m : Method) (target : Option Value)
    (args : List Operand) (w u : World) (result : Option Operand)
    (h : p.respond m target args w = (.ok result, u)) : m.ret.Gives result := by
  rw [respond] at h
  split at h
  · rename_i captured
    have descriptor_eq := captured.2.2.2.symm
    refine Signature.dispatch.gives_of_descriptor m.signature descriptor_eq result ?_
    obtain ⟨defect, -, failed⟩ | ⟨token, receiver, vs, answered⟩ := p.callFallback_cases args w
    · rw [failed] at h
      cases h
    · rw [answered] at h
      generalize p.contract.runFallback token receiver vs w = outcome at h
      obtain ⟨fault | v, t⟩ := outcome
      · cases h
      · cases h
        exact ⟨v, rfl⟩
  · exact p.env.invoke_gives m target args w u result h

namespace Method

/-- Coercion leaves one operand for each parameter, and a receiver unless the method is static. -/
theorem operands_ok (m : Method) (h : Hierarchy) (receiver arguments : Value)
    (target : Option Value) (args : List Operand)
    (ok : m.operands h receiver arguments = .ok (target, args)) :
    m.coerceReceiver h receiver = .ok target ∧
      h.coerceElements arguments m.params 0 = .ok args := by
  obtain ⟨target', first, rest⟩ := (except_bind_ok_iff _ _ _).mp ok
  obtain ⟨args', second, rest⟩ := (except_bind_ok_iff _ _ _).mp rest
  cases rest
  exact ⟨first, second⟩

theorem coerceReceiver_ok (m : Method) (h : Hierarchy) (receiver : Value) (target : Option Value)
    (ok : m.coerceReceiver h receiver = .ok target) :
    target = if m.shape = .static then none else some receiver := by
  rw [coerceReceiver] at ok
  split at ok
  · rename_i static
    cases ok
    rw [if_pos static]
  · rename_i instance_
    obtain ⟨_, -, rest⟩ := (except_bind_ok_iff _ _ _).mp ok
    cases rest
    rw [if_neg instance_]

end Method

theorem Hierarchy.coerceElements_length (h : Hierarchy) (arguments : Value) (params : List Ty)
    (position : Nat) (args : List Operand)
    (ok : h.coerceElements arguments params position = .ok args) :
    args.length = params.length := by
  induction params generalizing position args with
  | nil =>
      cases ok
      rfl
  | cons param params ih =>
      obtain ⟨item, -, ok⟩ := (except_bind_ok_iff _ _ _).mp ok
      obtain ⟨operand, -, ok⟩ := (except_bind_ok_iff _ _ _).mp ok
      obtain ⟨others, rest, ok⟩ := (except_bind_ok_iff _ _ _).mp ok
      cases ok
      exact congrArg (· + 1) (ih (position + 1) others rest)

/-- The operands of a call are as many as its method declares. -/
theorem Method.operands_shape (m : Method) (h : Hierarchy) (receiver arguments : Value)
    (target : Option Value) (args : List Operand)
    (ok : m.operands h receiver arguments = .ok (target, args)) :
    args.length = m.params.length ∧ (target = none ↔ m.shape = .static) := by
  obtain ⟨receiver_ok, args_ok⟩ := m.operands_ok h receiver arguments target args ok
  refine ⟨h.coerceElements_length arguments m.params 0 args args_ok, ?_⟩
  rw [m.coerceReceiver_ok h receiver target receiver_ok]
  split <;> simp [*]

theorem Frame.popArguments_eq (f : Frame) (site : CallSite) (args s : List Operand)
    (stack : f.stack = args.reverse ++ s) (count : args.length = site.sig.params.length) :
    f.popArguments site = .ok (args, { f with stack := s }) := by
  have enough : ¬ f.stack.length < site.sig.params.length := by
    rw [stack, List.length_append, List.length_reverse]
    omega
  have split_at : args.reverse.length = site.sig.params.length := by
    rw [List.length_reverse, count]
  rw [popArguments]
  rw [if_neg enough, stack, List.take_left' split_at, List.drop_left' split_at,
    List.reverse_reverse]

namespace Program

variable (p : Program)

/-- Operands that lie on the stack for a call are taken off it. -/
theorem pops_laid (site : CallSite) (f : Frame) (target : Option Value) (args s : List Operand)
    (stack : f.stack = Frame.laid target args ++ s) (count : args.length = site.sig.params.length)
    (shape : target.isSome = site.kind.hasReceiver) :
    ∃ g, f.popArguments site = .ok (args, g) ∧
      g.popReceiver site = .ok (target, { f with stack := s }) := by
  rw [Frame.laid, List.append_assoc] at stack
  refine ⟨_, f.popArguments_eq site args _ stack count, ?_⟩
  rw [Frame.popReceiver, ← shape]
  cases target with
  | none => rfl
  | some v =>
      rw [Option.isSome_some, if_pos rfl, Frame.popReference_eq _ v s rfl]
      rfl

/-- A call takes its operands off the stack. -/
theorem call_laid (site : CallSite) (f : Frame) (callers : List Caller) (target : Option Value)
    (args s : List Operand) (stack : f.stack = Frame.laid target args ++ s)
    (count : args.length = site.sig.params.length)
    (shape : target.isSome = site.kind.hasReceiver) (w : World) :
    p.call site f callers w = p.enter site target args { f with stack := s } callers w := by
  obtain ⟨g, arguments, receiver⟩ := pops_laid site f target args s stack count shape
  rw [call, arguments]
  dsimp only
  rw [receiver]

theorem isSome_target (m : Method) (target : Option Value)
    (shape : target = none ↔ m.shape = .static) : target.isSome = m.site.kind.hasReceiver := by
  change _ = m.shape.kind.hasReceiver
  cases target <;> cases m_shape : m.shape <;> simp_all [CallShape.kind, CallKind.hasReceiver]

/-- At its call, a method asks for nothing but that call, and not even that if its base captures
it. -/
theorem asksOnly_site_iff (allowed : CallSite → Option Value → Prop) (m : Method) (f : Frame)
    (callers : List Caller) (target : Option Value) (args s : List Operand)
    (here : f.routine.code[f.position]? = some (.call m.site))
    (stack : f.stack = Frame.laid target args ++ s) (count : args.length = m.params.length)
    (shape : target = none ↔ m.shape = .static) :
    p.AsksOnly allowed ⟨f, callers⟩ ↔
      (¬ m.Captured p.unit.name p.unit.base → allowed m.site target) := by
  have linked := p.unit.link?_site m
  obtain ⟨g, arguments, receiver⟩ :=
    pops_laid m.site f target args s stack count (isSome_target m target shape)
  constructor
  · intro asksOnly free
    rw [if_neg free] at linked
    exact asksOnly m.site target ⟨here, linked, args, g, _, arguments, receiver⟩
  · intro permitted site receiver' asks
    obtain ⟨called, unlinked, args', g', h, arguments', received⟩ := asks
    cases here.symm.trans called
    cases arguments.symm.trans arguments'
    cases receiver.symm.trans received
    refine permitted fun captured => ?_
    rw [if_pos captured] at linked
    cases linked.symm.trans unlinked

/-- The step of a method's call, once its operands lie on the stack. -/
theorem step_site (m : Method) (f : Frame) (callers : List Caller) (target : Option Value)
    (args s : List Operand) (here : f.routine.code[f.position]? = some (.call m.site))
    (stack : f.stack = Frame.laid target args ++ s) (count : args.length = m.params.length)
    (shape : target = none ↔ m.shape = .static) (w : World) :
    p.step ⟨f, callers⟩ w =
      answer (p.respond m target args) (f.advance 1 s) m.site callers w := by
  rw [step_call m.site f callers here,
    p.call_laid m.site f.next callers target args s stack count (isSome_target m target shape) w]
  unfold enter respond
  rw [p.unit.link?_site m]
  by_cases captured : m.Captured p.unit.name p.unit.base
  · rw [if_pos captured, if_pos captured]
    rfl
  · rw [if_neg captured, if_neg captured]
    have outside : p.callOutside m.site target args = p.env.invoke m target args := by
      unfold callOutside Environment.invoke
      have kind_eq : m.site.kind = m.shape.kind := rfl
      rw [kind_eq]
      cases target with
      | none =>
          rw [shape.mp rfl]
          rfl
      | some v =>
          have instance_ : m.shape ≠ .static := fun static => nomatch shape.mpr static
          cases m_shape : m.shape with
          | static => exact absurd m_shape instance_
          | virtual | interface => rfl
    dsimp only
    rw [outside]
    rfl

end Program

namespace Frame

variable (f : Frame)

theorem rest_advance (count : Nat) (s : List Operand) :
    (f.advance count s).rest = f.rest.drop count := by
  rw [rest, rest, List.drop_drop]
  rfl

/-- The caller finds the result of a call on its stack, if there is one. -/
theorem receive_gives (m : Method) (result : Option Operand) (gives : m.ret.Gives result) :
    f.receive m.site result = .ok { f with stack := result.toList ++ f.stack } := by
  have void_eq : m.site.sig.returnsVoid = m.ret.isVoid := rfl
  unfold receive
  rw [void_eq]
  cases ret : m.ret with
  | void =>
      rw [ret] at gives
      cases gives
      rfl
  | prim kind =>
      rw [ret] at gives
      obtain ⟨x, rfl, -⟩ := gives
      rfl
  | named _ | array _ =>
      rw [ret] at gives
      obtain ⟨v, rfl⟩ := gives
      rfl

/-- Whatever a call gives becomes one reference. -/
theorem execAll_reference (h : Hierarchy) (ret : Ty) (result : Option Operand)
    (s : List Operand) (gives : ret.Gives result) (stack : f.stack = result.toList ++ s) :
    f.execAll h ret.referenceCode =
      .ok (f.advance (ret.referenceCode (τ := Nat)).length
        (.ref (Operand.answer result) :: s)) := by
  cases ret with
  | void =>
      cases gives
      cases stack
      rfl
  | prim kind =>
      obtain ⟨x, rfl, kind_eq⟩ := gives
      change f.execAll h [.box kind] = _
      rw [execAll_singleton, exec, f.next.popPrimitive_eq x s stack, except_ok_bind]
      dsimp only
      rw [if_pos kind_eq]
      rfl
  | named _ | array _ =>
      obtain ⟨v, rfl⟩ := gives
      exact congrArg Except.ok (f.advance_zero _ stack).symm

end Frame

theorem Ty.referenceCode_straight (ret : Ty) :
    ∀ i ∈ (ret.referenceCode : List (Instr Nat)), i.isStraight = true := by
  cases ret <;> simp [referenceCode, Instr.isStraight]

namespace Program

variable {p : Program} {allowed : CallSite → Option Value → Prop} {m : Method} {f : Frame}
  {callers : List Caller} {w u v : World} {r : Except Fault (Option Operand)}

/-- Whether the call that a method makes is allowed. Operands that are refused make none, nor does a
method that its base captures. -/
def LetsCall (p : Program) (allowed : CallSite → Option Value → Prop) (m : Method)
    (receiver arguments : Value) : Prop :=
  ∀ target args, m.operands p.env.hierarchy receiver arguments = .ok (target, args) →
    ¬ m.Captured p.unit.name p.unit.base → allowed m.site target

theorem letsCall_iff {receiver arguments : Value} (target : Option Value) (args : List Operand)
    (operands : m.operands p.env.hierarchy receiver arguments = .ok (target, args)) :
    p.LetsCall allowed m receiver arguments ↔
      (¬ m.Captured p.unit.name p.unit.base → allowed m.site target) := by
  refine ⟨fun all => all target args operands, fun one target' args' same => ?_⟩
  cases operands.symm.trans same
  exact one

/-- After the call, the answer goes back to the caller. -/
theorem Yields.give_back_iff (result : Option Operand) (gives : m.ret.Gives result)
    (here : f.rest = m.ret.referenceCode ++ [.ret]) (stack : f.stack = result.toList)
    (d : Config) (back : Config.giveBack callers (some (.ref (Operand.answer result))) = .next d) :
    p.Yields allowed ⟨f, callers⟩ w r v ↔ p.Yields allowed d w r v := by
  have boxed := f.execAll_reference p.env.hierarchy m.ret result [] gives (by simpa using stack)
  refine ((straight_iff _ _ [.ret] m.ret.referenceCode_straight f callers here).2 _ boxed).trans
    ?_
  have last : (f.advance (m.ret.referenceCode (τ := Nat)).length
      [.ref (Operand.answer result)]).rest = [.ret] := by
    rw [Frame.rest_advance, here]
    simp
  obtain ⟨at_ret, -⟩ := Frame.code_eq_of_rest _ _ _ last
  refine next_iff (asksOnly_of_code .ret at_ret nofun) ?_
  rw [step_ret _ callers at_ret, Frame.popReference_eq _ (Operand.answer result) [] rfl]
  dsimp only
  rw [back]

variable (allowed) in
/-- The call of a method does what the call of whoever answers it does. -/
theorem Yields.call_iff (callers : List Caller) (target : Option Value) (args : List Operand)
    (here : f.rest = .call m.site :: (m.ret.referenceCode ++ [.ret]))
    (stack : f.stack = Frame.laid target args) (count : args.length = m.params.length)
    (shape : target = none ↔ m.shape = .static) :
    (∀ fault u, p.respond m target args w = (.error fault, u) →
      (p.Yields allowed ⟨f, callers⟩ w r v ↔
        (¬ m.Captured p.unit.name p.unit.base → allowed m.site target) ∧
          r = .error fault ∧ v = u)) ∧
    ∀ result u d, p.respond m target args w = (.ok result, u) →
      Config.giveBack callers (some (.ref (Operand.answer result))) = .next d →
      (p.Yields allowed ⟨f, callers⟩ w r v ↔
        (¬ m.Captured p.unit.name p.unit.base → allowed m.site target) ∧
          p.Yields allowed d u r v) := by
  obtain ⟨at_call, after_call⟩ := f.code_eq_of_rest _ _ here
  have laid := stack.trans (List.append_nil _).symm
  rw [← p.asksOnly_site_iff allowed m f callers target args [] at_call laid count shape]
  have step := p.step_site m f callers target args [] at_call laid count shape w
  unfold answer at step
  constructor
  · intro fault u failed
    rw [failed] at step
    refine ⟨fun yields => ⟨yields.asksOnly, (failed_iff yields.asksOnly step).mp yields⟩, ?_⟩
    exact fun ends => (failed_iff ends.1 step).mpr ends.2
  · intro result u d called back
    have given := p.respond_gives m target args w u result called
    rw [called] at step
    dsimp only at step
    rw [Frame.receive_gives _ m result given] at step
    let g : Frame := { f.advance 1 [] with stack := result.toList ++ (f.advance 1 []).stack }
    have after : p.Yields allowed ⟨g, callers⟩ u r v ↔ p.Yields allowed d u r v :=
      give_back_iff (f := g) result given after_call (List.append_nil _) d back
    rw [← after]
    exact ⟨fun yields => ⟨yields.asksOnly, (next_iff yields.asksOnly step).mp yields⟩,
      fun ends => (next_iff ends.1 step).mpr ends.2⟩

variable (allowed) in
/-- The routine of a method does what its evaluation does, and hands the answer back. -/
theorem Yields.method_iff (callers : List Caller) (callable : m.Callable)
    (receiver arguments : Value)
    (found_receiver : f.locals[Slot.receiver]? = some (.ref receiver))
    (found_arguments : f.locals[Slot.arguments]? = some (.ref arguments))
    (here : f.rest = m.code) (empty : f.stack = []) :
    (∀ fault u, m.evaluate p.env.hierarchy (p.respond m) receiver arguments w = (.error fault, u) →
      (p.Yields allowed ⟨f, callers⟩ w r v ↔
        p.LetsCall allowed m receiver arguments ∧ r = .error fault ∧ v = u)) ∧
    ∀ answer u d, m.evaluate p.env.hierarchy (p.respond m) receiver arguments w = (.ok answer, u) →
      Config.giveBack callers (some (.ref answer)) = .next d →
      (p.Yields allowed ⟨f, callers⟩ w r v ↔
        p.LetsCall allowed m receiver arguments ∧ p.Yields allowed d u r v) := by
  rw [Method.evaluate_apply]
  have code_eq : (m.code : List (Instr Nat)) = (m.receiverCode ++ elementsCode m.params 0) ++
      (.call m.site :: (m.ret.referenceCode ++ [.ret])) := by
    simp [Method.code]
  have run := f.execAll_operands p.env.hierarchy m callable receiver arguments found_receiver
    found_arguments
  have before := straight_iff (p := p) (w := w) (v := v) (r := r) allowed _ _
    (fun i mem => (m.operandsCode_loads callable i mem).isStraight) f callers (here.trans code_eq)
  cases operands : m.operands p.env.hierarchy receiver arguments with
  | error fault =>
      rw [operands] at run
      have lets : p.LetsCall allowed m receiver arguments := by
        rw [LetsCall, operands]
        exact nofun
      refine ⟨fun fault' u same => ?_, nofun⟩
      cases same
      exact (before.1 fault run).trans (and_iff_right lets).symm
  | ok laid =>
      obtain ⟨target, args⟩ := laid
      rw [operands] at run
      dsimp only
      obtain ⟨count, shape⟩ := m.operands_shape p.env.hierarchy receiver arguments target args
        operands
      let g := f.advance (m.receiverCode ++ elementsCode (τ := Nat) m.params 0).length
        (Frame.laid target args ++ f.stack)
      have g_rest : g.rest = .call m.site :: (m.ret.referenceCode ++ [.ret]) := by
        rw [Frame.rest_advance, here, code_eq, List.drop_left]
      have laid : g.stack = Frame.laid target args := by
        change _ ++ f.stack = _
        rw [empty, List.append_nil]
      obtain ⟨faults, answers⟩ := call_iff (p := p) (w := w) (v := v) (r := r) allowed callers
        target args g_rest laid count shape
      rw [(before.2 g run), letsCall_iff target args operands]
      rcases call : p.respond m target args w with ⟨fault | result, t⟩
      · refine ⟨fun fault' u same => ?_, nofun⟩
        cases same
        exact faults fault t call
      · refine ⟨nofun, fun answer u d same back => ?_⟩
        cases same
        exact answers result t d call back

end Program

end TokenDispatch
