import TokenDispatch.Proofs.Endings
import TokenDispatch.Proofs.Operands
import TokenDispatch.Proofs.Refinement

/-!
Generated code raises no internal fault of its own. Whatever token, receiver and arguments a
dispatcher is invoked with, an internal fault is one that a host method or the base reported, and it
is the last thing on record. Descriptors must tell signatures apart for this.
-/

namespace TokenDispatch

/-- Whether a call outside ended with a fault. -/
def OutsideCall.Raised : OutsideCall → Fault → Prop
  | .host _ _ _ result, fault => result = .error fault
  | .init result, fault => result = .error fault
  | .fallback _ _ _ result, fault => result = .error fault

/-- The last call on record ended with a fault. -/
def World.EndsIn (w u : World) (fault : Fault) : Prop :=
  ∃ call : OutsideCall, call.Raised fault ∧ u.calls = w.calls.push call

/-- An action that finds no defect on its own: one that it ends with was raised outside. -/
def Exec.Reports {α : Type} (x : Exec α) : Prop :=
  ∀ w u defect, x w = (.error (.internal defect), u) → w.EndsIn u (.internal defect)

/-- An action outside that ends with a fault is recorded with that fault. -/
theorem World.outside_error {α : Type} (action : Heap → Except Fault α × Heap)
    (record : Except Fault α → OutsideCall)
    (raises : ∀ fault, (record (.error fault)).Raised fault) (w u : World) (fault : Fault)
    (h : World.outside action record w = (.error fault, u)) : w.EndsIn u fault := by
  have ran : World.outside action record w =
      ((action w.heap).1,
        { heap := (action w.heap).2, calls := w.calls.push (record (action w.heap).1) }) := rfl
  rw [ran] at h
  obtain ⟨raised, rfl⟩ := Prod.mk.inj h
  refine ⟨record (action w.heap).1, ?_, rfl⟩
  rw [raised]
  exact raises fault

theorem Contract.runFallback_error (contract : Contract) (token : Int32)
    (receiver arguments : Value) (w u : World) (fault : Fault)
    (h : contract.runFallback token receiver arguments w = (.error fault, u)) :
    w.EndsIn u fault :=
  World.outside_error _ (.fallback token receiver arguments) (fun _ => rfl) w u fault h

theorem Contract.runInit_error (contract : Contract) (w u : World) (fault : Fault)
    (h : contract.runInit w = (.error fault, u)) : w.EndsIn u fault :=
  World.outside_error _ .init (fun _ => rfl) w u fault h

namespace Environment

variable {env : Environment} {m : Method}

/-- The method that answers has the very signature that the call is made with. -/
theorem sig_eq_of_answers (delimited : m.signature.Delimited)
    (registered : ∀ h ∈ env.methods.methods, h.sig.Delimited) (target : Option Value)
    (answering : HostMethod) (answers : env.Answers m target answering) :
    answering.sig = m.signature :=
  answering.sig.eq_of_descriptor m.signature
    (registered answering answers.declares.registered) delimited answers.declares.descriptor_eq

theorem invoke_reports (delimited : m.signature.Delimited)
    (registered : ∀ h ∈ env.methods.methods, h.sig.Delimited) (target : Option Value)
    (args : List Operand) (fit : env.hierarchy.FitAll m.params args) :
    (env.invoke m target args).Reports := by
  intro w u defect h
  have accepts (answering : HostMethod) (answers : env.Answers m target answering) :
      answering.checkArguments args = .ok () := by
    apply answering.checkArguments_of_fitAll env.hierarchy
    rw [sig_eq_of_answers delimited registered target answering answers]
    exact fit
  obtain ⟨fault, refused, why⟩ | ⟨answering, -, ran⟩ := env.invoke_cases m target args w
  · rw [refused] at h
    cases h
    obtain resolved | ⟨answering, answers, rejected⟩ := why
    · exact absurd resolved (NoDefect.resolve env m target defect)
    · cases (accepts answering answers).symm.trans rejected
  · rw [ran] at h
    obtain ⟨verdict, rfl⟩ := Prod.mk.inj h
    exact ⟨.host answering target args (answering.body ⟨target, args⟩ w.heap).1,
      answering.verdict_internal _ _ defect verdict, rfl⟩

end Environment

/-- Operands that fit the parameters of the fallback are its operands. -/
theorem Hierarchy.FitAll.fallback {h : Hierarchy} {args : List Operand}
    (fit : h.FitAll [.prim .int, .object, .objectArray] args) :
    ∃ token receiver arguments, args = [.int token, .ref receiver, .ref arguments] := by
  obtain ⟨count, fits⟩ := fit
  match args, count with
  | [first, second, third], _ =>
      have token := fits 0 _ first rfl rfl
      have receiver := fits 1 _ second rfl rfl
      have arguments := fits 2 _ third rfl rfl
      cases first with
      | ref v => cases token
      | prim x =>
          cases second with
          | prim y => cases receiver
          | ref v =>
              cases third with
              | prim y => cases arguments
              | ref vs =>
                  cases x <;> cases token
                  exact ⟨_, v, vs, rfl⟩

theorem Program.callFallback_reports (p : Program) (args : List Operand)
    (fit : p.env.hierarchy.FitAll [.prim .int, .object, .objectArray] args) :
    (p.callFallback args).Reports := by
  intro w u defect h
  obtain ⟨token, receiver, arguments, rfl⟩ := fit.fallback
  rw [p.callFallback_eq] at h
  apply p.contract.runFallback_error token receiver arguments
  cases ran : p.contract.runFallback token receiver arguments w with
  | mk result v =>
      rw [ran] at h
      cases result with
      | error fault =>
          cases h
          rfl
      | ok v => cases h

/-- A captured method with delimited class names takes exactly what the fallback takes. -/
theorem Method.params_of_captured (m : Method) (unit base : String)
    (captured : m.Captured unit base)
    (delimited : m.signature.Delimited) : m.params = [.prim .int, .object, .objectArray] := by
  have same := m.signature.eq_of_descriptor .dispatch delimited Signature.dispatch_delimited
    captured.2.2.2
  exact congrArg Signature.params same

/-- Whoever answers the call of a method reports what is wrong with the code, given operands that
fit the parameters. -/
theorem Program.respond_reports (p : Program) (m : Method) (delimited : m.signature.Delimited)
    (registered : ∀ h ∈ p.env.methods.methods, h.sig.Delimited) (target : Option Value)
    (args : List Operand) (fit : p.env.hierarchy.FitAll m.params args) :
    (p.respond m target args).Reports := by
  rw [respond]
  split
  · rename_i captured
    apply p.callFallback_reports
    rw [← m.params_of_captured _ _ captured delimited]
    exact fit
  · exact Environment.invoke_reports delimited registered target args fit

theorem Method.evaluate_reports (m : Method) (callable : m.Callable) (h : Hierarchy)
    (call : Option Value → List Operand → Exec (Option Operand))
    (reports : ∀ target args, h.FitAll m.params args → (call target args).Reports)
    (receiver arguments : Value) : (m.evaluate h call receiver arguments).Reports := by
  intro w u defect failed
  rw [m.evaluate_apply] at failed
  cases operands : m.operands h receiver arguments with
  | error fault =>
      rw [operands] at failed
      cases failed
      exact absurd operands (NoDefect.operands m callable h receiver arguments defect)
  | ok laid =>
      obtain ⟨target, args⟩ := laid
      rw [operands] at failed
      dsimp only at failed
      have coerced := (m.operands_ok h receiver arguments target args operands).2
      have fit := h.coerceElements_fitAll arguments m.params 0 args coerced
      cases called : call target args w with
      | mk result v =>
          rw [called] at failed
          cases result with
          | ok answer => cases failed
          | error fault =>
              cases failed
              exact reports target args fit w u defect called

namespace Dispatcher

variable {d : Dispatcher} {options : Options} {unit : String} {methods : List Method}
  {env : Environment} {contract : Contract}

theorem Serves.answers_reports (serves : d.Serves options unit methods env contract)
    (delimited : ∀ m ∈ methods, m.signature.Delimited)
    (registered : ∀ h ∈ env.methods.methods, h.sig.Delimited) (token : Int32)
    (receiver arguments : Value) :
    ∃ action, d.Answers token receiver arguments action ∧ action.Reports := by
  cases token_cases methods token with
  | inl carried =>
      obtain ⟨position, m, found, rfl⟩ := carried
      have mem := List.mem_of_getElem? found
      refine ⟨_, serves.answers_method position m found receiver arguments, ?_⟩
      apply Method.evaluate_reports m (serves.lays.callable m mem)
      intro target args fit
      rw [← serves.env_eq] at registered fit
      exact d.respond_reports m (delimited m mem) registered target args fit
  | inr other =>
      refine ⟨_, serves.answers_other token other receiver arguments, ?_⟩
      intro w u defect failed
      exact contract.runFallback_error token receiver arguments w u _ failed

/-- However a compiled dispatcher is invoked, an internal fault that the invocation ends with is the
one that the last call outside reported. Where every walk up superclasses ends, so does every
invocation. -/
theorem invoke_internal_fault (steps : Nat) (options : Options) (unit : String)
    (methods : List Method) (env : Environment) (contract : Contract) (w₀ v : World)
    (marked : List Method) (d : Dispatcher)
    (compiled : compile steps options unit methods env contract w₀ = (marked, .done d, v))
    (delimited : ∀ m ∈ methods, m.signature.Delimited)
    (registered : ∀ h ∈ env.methods.methods, h.sig.Delimited) (token : Int32)
    (receiver arguments : Value) (w : World) :
    (env.hierarchy.Grounded → ∃ result u, d.Ends token receiver arguments w result u ∧
      ∃ enough, ∀ steps ≥ enough,
        d.invoke steps token receiver arguments w = (.ofExcept result, u)) ∧
    ∀ steps defect u,
      d.invoke steps token receiver arguments w = (.failed (.internal defect), u) →
        w.EndsIn u (.internal defect) := by
  have serves := compile_serves steps options unit methods env contract w₀ v marked d compiled
  constructor
  · intro grounded
    obtain ⟨result, u, ends⟩ := serves.ends_of_grounded grounded token receiver arguments w
    exact ⟨result, u, ends, ends.invoke⟩
  · intro steps defect u failed
    obtain ⟨action, answers, reports⟩ :=
      serves.answers_reports delimited registered token receiver arguments
    exact reports w u defect (answers.failed steps w u _ failed)

/-! A host method that reports a defect, and one that is looked for without end. -/

def clockMethod : Method :=
  { name := "now", declaring := .named "Clock", params := [], ret := .prim .long, isStatic := true }

def brokenClock : HostMethod :=
  { owner := "Clock"
    name := "now"
    sig := ⟨[], .prim .long⟩
    isStatic := true
    body := fun _ heap => (.error (.internal (.reported "stopped")), heap) }

/-- A class that extends itself. -/
def endlessClock : Environment :=
  { hierarchy := Hierarchy.builtin.defineClass "Clock" (some "Clock") [] }

/-- A fault that was reported, and a hierarchy on which no invocation has an end. -/
theorem invoke_internal_fault_of_reported :
    (∃ marked d v, compile 8 {} "U" [clockMethod] { methods := ⟨[brokenClock]⟩ } .rejecting {} =
        (marked, .done d, v) ∧
      ∃ steps u, d.Ends (positionKey 0) .null .null {}
          (.error (.internal (.reported "stopped"))) u ∧
        d.invoke steps (positionKey 0) .null .null {} =
          (.failed (.internal (.reported "stopped")), u) ∧
        World.EndsIn {} u (.internal (.reported "stopped"))) ∧
    ∃ marked d v, compile 8 {} "U" [clockMethod] endlessClock .rejecting {} =
        (marked, .done d, v) ∧
      ∀ receiver arguments w result u, ¬ d.Ends (positionKey 0) receiver arguments w result u := by
  constructor
  · obtain ⟨marked, d, v, compiled⟩ := compile_of_isDone 8 {} "U" [clockMethod]
      { methods := ⟨[brokenClock]⟩ } .rejecting {} (by decide +kernel)
    have registered : ∀ h ∈ [brokenClock], h.sig.Delimited :=
      List.forall_mem_singleton.mpr (by decide)
    obtain ⟨ending, faults⟩ := invoke_internal_fault _ _ _ _ _ _ _ _ _ d compiled (by decide)
      registered (positionKey 0) .null .null {}
    obtain ⟨result, u, ends, enough, run⟩ := ending (by decide +kernel)
    have serves := compile_serves _ _ _ _ _ _ _ _ _ d compiled
    have direct := (serves.direct_iff 0 clockMethod rfl).mpr (by decide +kernel) .null .null
    have invoked := run enough (Nat.le_refl enough)
    have answered := direct.ended enough {} u _ invoked (by cases result <;> exact nofun)
    have failed : result = .error (.internal (.reported "stopped")) := by
      cases result with
      | error fault => exact congrArg Except.error (Outcome.failed.inj answered.1)
      | ok answer => cases answered.1
    subst failed
    exact ⟨marked, d, v, compiled, enough, u, ends, invoked, faults enough _ _ invoked⟩
  · obtain ⟨marked, d, v, compiled⟩ := compile_of_isDone 8 {} "U" [clockMethod] endlessClock
      .rejecting {} (by decide +kernel)
    have serves := compile_serves _ _ _ _ _ _ _ _ _ d compiled
    have own : endlessClock.hierarchy.superclass? "Clock" = some "Clock" := by decide +kernel
    refine ⟨marked, d, v, compiled, fun receiver arguments w result u => ?_⟩
    exact serves.not_ends_of_endless 0 clockMethod rfl (by decide) rfl (by decide +kernel)
      fun names ascent => ascent.superclass_ne own

end Dispatcher

end TokenDispatch
