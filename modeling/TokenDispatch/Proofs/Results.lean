import TokenDispatch.Proofs.Defects

/-!
What an invocation answers. Whatever host methods make of a call, an answer that comes back conforms
to the declared type of the method that the token stands for: null where there is no result, a boxed
primitive of the declared kind, or an instance of the declared reference type.
-/

namespace TokenDispatch

/-- An answer that a method of the declared type may give: null for no result, a primitive of the
very kind in its box, an instance of a reference type. -/
def Hierarchy.Conforms (h : Hierarchy) : Ty → Value → Prop
  | .void, v => v = .null
  | .prim kind, v => ∃ x : Primitive, v = .boxed x ∧ x.kind = kind
  | .named name, v => h.isInstance (.named name) v = true
  | .array element, v => h.isInstance (.array element) v = true

namespace Hierarchy

variable (h : Hierarchy)

/-- A result of the declared kind conforms as soon as a reference is an instance. -/
theorem conforms_of_gives (ret : Ty) (result : Option Operand) (gives : ret.Gives result)
    (instance_ : ∀ v, result = some (.ref v) → h.isInstance ret v = true) :
    h.Conforms ret (Operand.answer result) := by
  cases ret with
  | void =>
      cases gives
      rfl
  | prim kind =>
      obtain ⟨x, rfl, kind_eq⟩ := gives
      exact ⟨x, rfl, kind_eq⟩
  | named _ | array _ =>
      obtain ⟨v, rfl⟩ := gives
      exact instance_ v rfl

end Hierarchy

/-- A reference that passes is an instance of what the host method itself declares. -/
theorem HostMethod.verdict_instance (m : HostMethod) (h : Hierarchy)
    (result : Except Fault Operand) (v : Value)
    (ok : m.verdict h result = .ok (some (.ref v))) : h.isInstance m.sig.ret v = true := by
  obtain ⟨operand, -, passed⟩ := (except_bind_ok_iff _ _ _).mp ok
  split at passed
  · cases passed
  · cases mismatch : m.mismatch? operand with
    | some fault =>
        rw [mismatch] at passed
        cases passed
    | none =>
        rw [mismatch] at passed
        cases operand with
        | prim x => cases passed
        | ref answer =>
            dsimp only at passed
            split at passed
            · cases passed
              assumption
            · cases passed

/-- Of overriding methods and those of interfaces too, the signature is that of the call. -/
theorem Environment.invoke_instance (env : Environment) (m : Method)
    (delimited : m.signature.Delimited)
    (registered : ∀ h ∈ env.methods.methods, h.sig.Delimited) (target : Option Value)
    (args : List Operand) (w u : World) (v : Value)
    (h : env.invoke m target args w = (.ok (some (.ref v)), u)) :
    env.hierarchy.isInstance m.ret v = true := by
  obtain ⟨fault, refused, -⟩ | ⟨answering, answers, ran⟩ := env.invoke_cases m target args w
  · rw [refused] at h
    cases h
  · rw [ran] at h
    have passed := answering.verdict_instance _ _ v (Prod.mk.inj h).1
    rw [sig_eq_of_answers delimited registered target answering answers] at passed
    exact passed

/-- A captured method with delimited class names declares what the fallback answers. -/
theorem Method.ret_of_captured (m : Method) (unit base : String) (captured : m.Captured unit base)
    (delimited : m.signature.Delimited) : m.ret = .object := by
  have same := m.signature.eq_of_descriptor .dispatch delimited (by decide) captured.2.2.2
  exact congrArg Signature.ret same

theorem Program.respond_conforms (p : Program) (m : Method) (delimited : m.signature.Delimited)
    (registered : ∀ h ∈ p.env.methods.methods, h.sig.Delimited) (target : Option Value)
    (args : List Operand) (w u : World) (result : Option Operand)
    (h : p.respond m target args w = (.ok result, u)) :
    p.env.hierarchy.Conforms m.ret (Operand.answer result) := by
  apply p.env.hierarchy.conforms_of_gives m.ret result (p.respond_gives m target args w u result h)
  intro v same
  rw [respond] at h
  split at h
  · rename_i captured
    rw [m.ret_of_captured _ _ captured delimited]
    exact p.env.hierarchy.isInstance_object v
  · rw [same] at h
    exact p.env.invoke_instance m delimited registered target args w u v h

/-- An evaluation answers with the result of its call. -/
theorem Method.evaluate_ok (m : Method) (h : Hierarchy)
    (call : Option Value → List Operand → Exec (Option Operand)) (receiver arguments : Value)
    (w u : World) (answer : Value)
    (ok : m.evaluate h call receiver arguments w = (.ok answer, u)) :
    ∃ target args result, call target args w = (.ok result, u) ∧
      answer = Operand.answer result := by
  rw [m.evaluate_apply] at ok
  cases operands : m.operands h receiver arguments with
  | error fault =>
      rw [operands] at ok
      cases ok
  | ok laid =>
      obtain ⟨target, args⟩ := laid
      rw [operands] at ok
      dsimp only at ok
      refine ⟨target, args, ?_⟩
      cases called : call target args w with
      | mk result v =>
          rw [called] at ok
          cases result with
          | error fault => cases ok
          | ok result =>
              cases ok
              exact ⟨result, rfl, rfl⟩

namespace Dispatcher

variable {d : Dispatcher} {options : Options} {unit : String} {methods : List Method}
  {env : Environment} {contract : Contract}

/-- Whatever comes back for the token of a position conforms to what the method declares. -/
theorem invoke_conforms (steps : Nat) (options : Options) (unit : String)
    (methods : List Method) (env : Environment) (contract : Contract) (w₀ v : World)
    (marked : List Method) (d : Dispatcher)
    (compiled : compile steps options unit methods env contract w₀ = (marked, .done d, v))
    (delimited : ∀ m ∈ methods, m.signature.Delimited)
    (registered : ∀ h ∈ env.methods.methods, h.sig.Delimited) (position : Nat) (m : Method)
    (found : methods[position]? = some m) (steps' : Nat) (receiver arguments answer : Value)
    (w u : World)
    (invoked : d.invoke steps' (positionKey position) receiver arguments w = (.done answer, u)) :
    env.hierarchy.Conforms m.ret answer := by
  have serves := compile_serves steps options unit methods env contract w₀ v marked d compiled
  have answers := serves.answers_method position m found receiver arguments
  have ended := answers.done steps' w u answer invoked
  obtain ⟨target, args, result, called, rfl⟩ := m.evaluate_ok _ _ _ _ w u answer ended
  rw [← serves.env_eq] at registered ⊢
  exact d.respond_conforms m (delimited m (List.mem_of_getElem? found)) registered target args w u
    result called

/-! A string that is asked for another one. -/

def trimMethod : Method :=
  { name := "trim"
    declaring := .named ClassName.string
    params := []
    ret := .named ClassName.string }

def trimBody : HostMethod :=
  { owner := ClassName.string
    name := "trim"
    sig := ⟨[], .named ClassName.string⟩
    isStatic := false
    body := fun _ heap => (.ok (.ref (.string "abc")), heap) }

theorem invoke_conforms_of_string :
    ∃ marked d v, compile 8 {} "U" [trimMethod] { methods := ⟨[trimBody]⟩ } .rejecting {} =
        (marked, .done d, v) ∧
      ∃ steps u,
        d.invoke steps (positionKey 0) (.string " abc ") .null {} = (.done (.string "abc"), u) ∧
        Hierarchy.builtin.Conforms (.named ClassName.string) (.string "abc") := by
  obtain ⟨marked, d, v, compiled⟩ := compile_of_isDone 8 {} "U" [trimMethod]
    { methods := ⟨[trimBody]⟩ } .rejecting {} (by decide +kernel)
  have serves := compile_serves _ _ _ _ _ _ _ _ _ d compiled
  have direct := (serves.direct_iff 0 trimMethod rfl).mpr (by decide +kernel)
  obtain ⟨enough, run⟩ := direct (.string " abc ") .null {}
  have ends : d.invoke enough (positionKey 0) (.string " abc ") .null {} =
      (.done (.string "abc"), trimBody.ran (some (.string " abc ")) [] {}) :=
    (run enough).1 (Nat.le_refl enough)
  have registered : ∀ h ∈ [trimBody], h.sig.Delimited :=
    List.forall_mem_singleton.mpr (by decide)
  refine ⟨marked, d, v, compiled, enough, _, ends, ?_⟩
  exact invoke_conforms _ _ _ _ _ _ _ _ _ d compiled (by decide) registered 0 trimMethod rfl
    enough (.string " abc ") .null (.string "abc") {} _ ends

end Dispatcher

end TokenDispatch
