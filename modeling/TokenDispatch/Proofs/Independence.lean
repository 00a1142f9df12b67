import TokenDispatch.Proofs.Endings
import TokenDispatch.Proofs.Refinement

/-!
What an invocation depends on. A method is called with its receiver, unless it is static, and with
as many elements of the argument array as it has parameters. Nothing else that an invocation is
given makes a difference: of two invocations that agree so far, one ends if the other does, and then
they end alike and have the same effect.
-/

namespace TokenDispatch

/-! Coercion reads the declared elements only. -/

/-- Elements at the positions of parameters are the same for arrays that begin alike. -/
theorem Value.element_of_take (xs ys : List Value) (count position : Nat) (low : position < count)
    (small : position < indexLimit) (same : xs.take count = ys.take count) :
    (Value.array xs).element (.ofNat position) = (Value.array ys).element (.ofNat position) := by
  have item_eq : xs[position]? = ys[position]? := by
    rw [← List.getElem?_take_of_lt low, same, List.getElem?_take_of_lt low]
  cases item : xs[position]? with
  | some x =>
      rw [Value.element_of_array xs position small x item,
        Value.element_of_array ys position small x (item_eq.symm.trans item)]
  | none =>
      -- the array ends before the position, so its first elements are all of it
      have xs_short := List.getElem?_eq_none_iff.mp item
      have ys_short := List.getElem?_eq_none_iff.mp (item_eq.symm.trans item)
      rw [List.take_of_length_le (by omega), List.take_of_length_le (by omega)] at same
      rw [same]

theorem Hierarchy.coerceElements_congr (h : Hierarchy) (arguments others : Value)
    (params : List Ty) (start : Nat)
    (same : ∀ i < params.length,
      arguments.element (.ofNat (start + i)) = others.element (.ofNat (start + i))) :
    h.coerceElements arguments params start = h.coerceElements others params start := by
  induction params generalizing start with
  | nil => rfl
  | cons param params ih =>
      have first := same 0 (Nat.zero_lt_succ _)
      have rest := ih (start + 1) fun i lt => by
        have := same (i + 1) (Nat.succ_lt_succ lt)
        rwa [← Nat.add_assoc, Nat.add_right_comm] at this
      rw [Nat.add_zero] at first
      rw [coerceElements, coerceElements, first, rest]

namespace Method

/-- Receivers and arguments that a method does not tell apart. -/
structure SameInputs (m : Method) (receiver arguments receiver' arguments' : Value) : Prop where
  receiver : m.shape ≠ .static → receiver = receiver'
  element : ∀ position < m.params.length,
    arguments.element (.ofNat position) = arguments'.element (.ofNat position)

section

variable {m : Method} {receiver arguments receiver' arguments' : Value}

theorem SameInputs.symm (same : m.SameInputs receiver arguments receiver' arguments') :
    m.SameInputs receiver' arguments' receiver arguments :=
  ⟨fun static => (same.receiver static).symm, fun position lt => (same.element position lt).symm⟩

theorem SameInputs.operands_eq (same : m.SameInputs receiver arguments receiver' arguments')
    (h : Hierarchy) : m.operands h receiver arguments = m.operands h receiver' arguments' := by
  have receiver_eq : m.coerceReceiver h receiver = m.coerceReceiver h receiver' := by
    by_cases static : m.shape = .static
    · rw [coerceReceiver, coerceReceiver, if_pos static, if_pos static]
    · rw [same.receiver static]
  have arguments_eq := h.coerceElements_congr arguments arguments' m.params 0 fun i lt => by
    rw [Nat.zero_add]
    exact same.element i lt
  rw [operands, operands, receiver_eq, arguments_eq]

theorem SameInputs.evaluate_eq (same : m.SameInputs receiver arguments receiver' arguments')
    (h : Hierarchy) (call : Option Value → List Operand → Exec (Option Operand)) :
    m.evaluate h call receiver arguments = m.evaluate h call receiver' arguments' := by
  rw [evaluate, evaluate, same.operands_eq h]

theorem SameInputs.letsCall (same : m.SameInputs receiver arguments receiver' arguments')
    {p : Program} {allowed : CallSite → Option Value → Prop}
    (lets : p.LetsCall allowed m receiver arguments) :
    p.LetsCall allowed m receiver' arguments' := by
  rwa [Program.LetsCall, ← same.operands_eq]

end

end Method

/-! Evaluation reads the heap only. -/

theorem Environment.invoke_oblivious (env : Environment) (m : Method) (target : Option Value)
    (args : List Operand) : (env.invoke m target args).Oblivious := by
  rw [env.invoke_eq]
  exact Exec.oblivious_bind (Exec.oblivious_lift _) fun answering =>
    env.call_oblivious answering target args

theorem Program.respond_oblivious (p : Program) (m : Method) (target : Option Value)
    (args : List Operand) : (p.respond m target args).Oblivious := by
  rw [respond]
  split
  · exact p.callFallback_oblivious args
  · exact p.env.invoke_oblivious m target args

theorem Method.evaluate_oblivious (m : Method) (h : Hierarchy)
    (call : Option Value → List Operand → Exec (Option Operand))
    (each : ∀ target args, (call target args).Oblivious) (receiver arguments : Value) :
    (m.evaluate h call receiver arguments).Oblivious := by
  refine Exec.oblivious_bind (Exec.oblivious_lift _) fun operands => ?_
  exact Exec.oblivious_bind (each operands.1 operands.2) fun _ => Exec.oblivious_pure _

namespace Dispatcher

/-- Whatever one invocation ends with, another one from the same heap ends with as well, no matter
what was recorded before either: it leaves the same heap and makes the same calls outside. -/
def Mirrors (d : Dispatcher) (token : Int32) (receiver arguments receiver' arguments' : Value) :
    Prop :=
  ∀ heap calls result v, d.Ends token receiver arguments ⟨heap, calls⟩ result v →
    ∃ made, v.calls = calls ++ made ∧
      ∀ calls', d.Ends token receiver' arguments' ⟨heap, calls'⟩ result ⟨v.heap, calls' ++ made⟩

/-- Two invocations that nobody can tell apart: each one ends if the other does, and as the other
does. -/
def Alike (d : Dispatcher) (token : Int32) (receiver arguments receiver' arguments' : Value) :
    Prop :=
  d.Mirrors token receiver arguments receiver' arguments' ∧
    d.Mirrors token receiver' arguments' receiver arguments

variable {d : Dispatcher} {options : Options} {unit : String} {methods : List Method}
  {env : Environment} {contract : Contract}

theorem Serves.mirrors (serves : d.Serves options unit methods env contract) (position : Nat)
    (m : Method) (found : methods[position]? = some m)
    {receiver arguments receiver' arguments' : Value}
    (same : m.SameInputs receiver arguments receiver' arguments') :
    d.Mirrors (positionKey position) receiver arguments receiver' arguments' := by
  intro heap calls result v ends
  obtain ⟨lets, acts⟩ := (serves.ends_method_iff position m found).mp ends
  have oblivious := m.evaluate_oblivious env.hierarchy (d.respond m) (d.respond_oblivious m)
    receiver arguments
  obtain ⟨result', left, made, runs⟩ := oblivious heap
  cases (runs calls).symm.trans acts
  refine ⟨made, rfl, fun calls' => (serves.ends_method_iff position m found).mpr
    ⟨same.letsCall lets, ?_⟩⟩
  rw [← same.evaluate_eq, runs]

theorem Serves.alike (serves : d.Serves options unit methods env contract) (position : Nat)
    (m : Method) (found : methods[position]? = some m)
    {receiver arguments receiver' arguments' : Value}
    (same : m.SameInputs receiver arguments receiver' arguments') :
    d.Alike (positionKey position) receiver arguments receiver' arguments' :=
  ⟨serves.mirrors position m found same, serves.mirrors position m found same.symm⟩

/-- An invocation depends on nothing that its method does not declare: not on the receiver of a
static method, not on any arguments of a method without parameters, and of an array of arguments
only on as many elements as there are parameters. Where every walk up superclasses ends, so does
every invocation, and with enough steps the machine gets there. -/
theorem invoke_reads_declared (steps : Nat) (options : Options) (unit : String)
    (methods : List Method) (env : Environment) (contract : Contract) (w v : World)
    (marked : List Method) (d : Dispatcher)
    (compiled : compile steps options unit methods env contract w = (marked, .done d, v))
    (position : Nat) (m : Method) (found : methods[position]? = some m) :
    (m.shape = .static → ∀ receiver receiver' arguments,
      d.Alike (positionKey position) receiver arguments receiver' arguments) ∧
    (m.params = [] → ∀ receiver arguments arguments',
      d.Alike (positionKey position) receiver arguments receiver arguments') ∧
    (∀ receiver items items', items.take m.params.length = items'.take m.params.length →
      d.Alike (positionKey position) receiver (.array items) receiver (.array items')) ∧
    (env.hierarchy.Grounded → ∀ receiver arguments w, ∃ result u,
      d.Ends (positionKey position) receiver arguments w result u) ∧
    ∀ receiver arguments w result u, d.Ends (positionKey position) receiver arguments w result u →
      ∃ enough, ∀ steps ≥ enough,
        d.invoke steps (positionKey position) receiver arguments w = (.ofExcept result, u) := by
  have serves := compile_serves steps options unit methods env contract w v marked d compiled
  have callable := serves.lays.callable m (List.mem_of_getElem? found)
  refine ⟨fun static receiver receiver' arguments => ?_, fun bare receiver arguments arguments' =>
    ?_, fun receiver items items' same => ?_, fun grounded receiver arguments w => ?_,
    fun receiver arguments w result u ends => ends.invoke⟩
  · exact serves.alike position m found ⟨fun other => absurd static other, fun _ _ => rfl⟩
  · refine serves.alike position m found ⟨fun _ => rfl, fun i lt => ?_⟩
    rw [bare] at lt
    exact absurd lt (Nat.not_lt_zero i)
  · refine serves.alike position m found ⟨fun _ => rfl, fun i lt => ?_⟩
    exact Value.element_of_take items items' _ i lt (callable.positions i lt) same
  · exact serves.ends_of_grounded grounded (positionKey position) receiver arguments w

/-! A static method of one parameter, and a method that is called on a string. -/

def parseMethod : Method :=
  { name := "parseInt"
    declaring := .named "Integer"
    params := [.named ClassName.string]
    ret := .prim .int
    isStatic := true }

theorem invoke_reads_declared_of_parse :
    ∃ marked d v,
      compile 8 {} "U" [parseMethod, freeMethod] {} .rejecting {} = (marked, .done d, v) ∧
      (∀ receiver arguments, d.Alike (positionKey 0) receiver arguments .null arguments) ∧
      (∀ receiver arguments, d.Alike (positionKey 1) receiver arguments receiver .null) ∧
      (∀ receiver item more,
        d.Alike (positionKey 0) receiver (.array (item :: more)) receiver (.array [item])) ∧
      ∀ receiver arguments w, ∃ steps result u,
        d.invoke steps (positionKey 0) receiver arguments w = (.ofExcept result, u) := by
  obtain ⟨marked, d, v, compiled⟩ := compile_of_isDone 8 {} "U" [parseMethod, freeMethod] {}
    .rejecting {} (by decide +kernel)
  obtain ⟨static, -, begins, ending, invoked⟩ :=
    invoke_reads_declared _ _ _ _ _ _ _ _ _ d compiled 0 parseMethod rfl
  obtain ⟨-, bare, -⟩ := invoke_reads_declared _ _ _ _ _ _ _ _ _ d compiled 1 freeMethod rfl
  refine ⟨marked, d, v, compiled, fun receiver arguments => ?_, fun receiver arguments => ?_,
    fun receiver item more => ?_, fun receiver arguments w => ?_⟩
  · exact static rfl receiver .null arguments
  · exact bare rfl receiver arguments .null
  · exact begins receiver (item :: more) [item] rfl
  · obtain ⟨result, u, ends⟩ := ending (by decide +kernel) receiver arguments w
    obtain ⟨enough, run⟩ := invoked receiver arguments w result u ends
    exact ⟨enough, result, u, run enough (Nat.le_refl enough)⟩

end Dispatcher

end TokenDispatch
