import TokenDispatch.Proofs.Descriptor
import TokenDispatch.Proofs.Evaluation

/-!
Which host method answers a call, and what becomes of its answer. Whatever way a call takes, the
method found carries the name and the descriptor of the call; it is run at most once, and that run
is on record.
-/

namespace TokenDispatch

/-! Searches. -/

/-- A registered method with the name and the descriptor of a call. -/
structure Environment.Declares (env : Environment) (m : HostMethod) (name descriptor : String) :
    Prop where
  registered : m ∈ env.methods.methods
  name_eq : m.name = name
  descriptor_eq : m.sig.descriptor = descriptor

namespace Environment

variable {env : Environment} {m : HostMethod} {owner name descriptor : String} {receiver : Value}

theorem declares_of_find? (h : env.methods.find? owner name descriptor = some m) :
    env.Declares m name descriptor ∧ m.owner = owner := by
  have found : env.methods.methods.find? (·.answersTo owner name descriptor) = some m := h
  have answers := List.find?_some found
  simp only [HostMethod.answersTo, Bool.and_eq_true, beq_iff_eq] at answers
  obtain ⟨⟨owner_eq, name_eq⟩, descriptor_eq⟩ := answers
  exact ⟨⟨List.mem_of_find?_eq_some found, name_eq, descriptor_eq⟩, owner_eq⟩

theorem declares_of_findInstance? (h : env.methods.findInstance? owner name descriptor = some m) :
    env.Declares m name descriptor ∧ m.owner = owner ∧ m.isStatic = false := by
  obtain ⟨found, plain⟩ := Option.filter_eq_some_iff.mp h
  obtain ⟨declares, owner_eq⟩ := declares_of_find? found
  exact ⟨declares, owner_eq, by simpa using plain⟩

theorem declares_of_findOnChain? (h : env.findOnChain? owner name descriptor = some m) :
    env.Declares m name descriptor ∧ m.owner ∈ env.hierarchy.chain owner ∧ m.isStatic = false := by
  obtain ⟨className, mem, found⟩ := List.exists_of_findSome?_eq_some h
  obtain ⟨declares, owner_eq, plain⟩ := declares_of_findInstance? found
  exact ⟨declares, by rw [owner_eq]; exact mem, plain⟩

theorem declares_of_findInInterfaces? (h : env.findInInterfaces? owner name descriptor = some m) :
    env.Declares m name descriptor ∧ m.owner ∈ env.hierarchy.reachable owner ∧
      m.isStatic = false := by
  obtain ⟨className, mem, found⟩ := List.exists_of_findSome?_eq_some h
  split at found
  · obtain ⟨declares, owner_eq, plain⟩ := declares_of_findInstance? found
    exact ⟨declares, by rw [owner_eq]; exact mem, plain⟩
  · cases found

theorem resolveStatic_ok (h : env.resolveStatic owner name descriptor = .ok m) :
    env.Declares m name descriptor ∧ m.isStatic = true := by
  rw [resolveStatic] at h
  split at h
  · cases h
  · rename_i found
    split at h
    · rename_i static
      cases h
      obtain ⟨className, -, found⟩ := List.exists_of_findSome?_eq_some found
      exact ⟨(declares_of_find? found).1, static⟩
    · cases h

theorem receiverClass_ok {className : String}
    (h : receiverClass owner name receiver = .ok className) :
    receiver.class? = some className := by
  rw [receiverClass] at h
  split at h
  · cases h
    assumption
  · cases h

/-- The method that runs is the one the receiver's class selects, or the declared one. -/
theorem select_cases (className name descriptor : String) (declared : HostMethod) :
    env.select className name descriptor declared = declared ∨
      env.findOnChain? className name descriptor =
        some (env.select className name descriptor declared) := by
  rw [select]
  cases env.findOnChain? className name descriptor with
  | none => exact .inl rfl
  | some m => exact .inr rfl

/-- The classes whose methods a call on an owner may run for a receiver of some class. -/
def MayRun (env : Environment) (owner className : String) (m : HostMethod) : Prop :=
  m.owner ∈ env.hierarchy.chain className ∨ m.owner ∈ env.hierarchy.chain owner ∨
    m.owner ∈ env.hierarchy.reachable owner

theorem resolveVirtual_ok (h : env.resolveVirtual owner name descriptor receiver = .ok m) :
    ∃ className, receiver.class? = some className ∧ env.Declares m name descriptor ∧
      m.isStatic = false ∧ env.MayRun owner className m := by
  obtain ⟨className, class_ok, h⟩ := (except_bind_ok_iff _ _ _).mp h
  refine ⟨className, receiverClass_ok class_ok, ?_⟩
  split at h
  · cases h
  · rename_i declared found
    cases h
    have declared_ok : env.Declares declared name descriptor ∧ declared.isStatic = false ∧
        env.MayRun owner className declared := by
      obtain on_chain | ⟨-, in_interfaces⟩ := Option.or_eq_some_iff.mp found
      · obtain ⟨declares, mem, plain⟩ := declares_of_findOnChain? on_chain
        exact ⟨declares, plain, .inr (.inl mem)⟩
      · obtain ⟨declares, mem, plain⟩ := declares_of_findInInterfaces? in_interfaces
        exact ⟨declares, plain, .inr (.inr mem)⟩
    cases select_cases className name descriptor declared with
    | inl same =>
        rw [same]
        exact declared_ok
    | inr selected =>
        obtain ⟨declares, mem, plain⟩ := declares_of_findOnChain? selected
        exact ⟨declares, plain, .inl mem⟩

theorem resolveInterface_ok (h : env.resolveInterface owner name descriptor receiver = .ok m) :
    ∃ className, receiver.class? = some className ∧
      env.hierarchy.isSubtype className owner = true ∧ env.Declares m name descriptor ∧
      m.isStatic = false ∧ env.MayRun owner className m := by
  obtain ⟨className, class_ok, h⟩ := (except_bind_ok_iff _ _ _).mp h
  refine ⟨className, receiverClass_ok class_ok, ?_⟩
  cases implements : env.hierarchy.isSubtype className owner with
  | false =>
      rw [implements] at h
      cases h
  | true =>
      refine ⟨rfl, ?_⟩
      rw [implements] at h
      cases found : env.findInInterfaces? owner name descriptor with
      | none =>
          rw [found] at h
          cases h
      | some declared =>
          rw [found] at h
          cases h
          cases select_cases className name descriptor declared with
          | inl same =>
              rw [same]
              obtain ⟨declares, mem, plain⟩ := declares_of_findInInterfaces? found
              exact ⟨declares, plain, .inr (.inr mem)⟩
          | inr selected =>
              obtain ⟨declares, mem, plain⟩ := declares_of_findOnChain? selected
              exact ⟨declares, plain, .inl mem⟩

/-! The target of a method's call. -/

/-- The method that answers the call of a method, by the shape of the call. -/
def resolve (env : Environment) (m : Method) : Option Value → Except Fault HostMethod
  | none => env.resolveStatic m.target.text m.name m.signature.descriptor
  | some receiver =>
      if m.shape = .interface then
        env.resolveInterface m.target.text m.name m.signature.descriptor receiver
      else env.resolveVirtual m.target.text m.name m.signature.descriptor receiver

theorem invoke_eq (env : Environment) (m : Method) (target : Option Value) (args : List Operand) :
    env.invoke m target args = (do
      let answering ← env.resolve m target
      env.call answering target args) := by
  unfold invoke resolve
  cases target with
  | none => rfl
  | some receiver =>
      dsimp only
      split <;> rfl

/-- What is known of the method that answers the call of a method. -/
structure Answers (env : Environment) (m : Method) (target : Option Value) (h : HostMethod) :
    Prop where
  declares : env.Declares h m.name m.signature.descriptor
  static_iff : h.isStatic = true ↔ target = none
  receiver : ∀ receiver ∈ target, ∃ className, receiver.class? = some className ∧
    (m.shape = .interface → env.hierarchy.isSubtype className m.target.text = true) ∧
    env.MayRun m.target.text className h

theorem resolve_ok (env : Environment) (m : Method) (target : Option Value) (answering : HostMethod)
    (h : env.resolve m target = .ok answering) : env.Answers m target answering := by
  unfold resolve at h
  cases target with
  | none =>
      obtain ⟨declares, static⟩ := resolveStatic_ok h
      exact ⟨declares, by simp [static], nofun⟩
  | some receiver =>
      dsimp only at h
      split at h
      · obtain ⟨className, class_eq, implements, declares, plain, may_run⟩ := resolveInterface_ok h
        refine ⟨declares, by simp [plain], fun v same => ?_⟩
        cases same
        exact ⟨className, class_eq, fun _ => implements, may_run⟩
      · rename_i other
        obtain ⟨className, class_eq, declares, plain, may_run⟩ := resolveVirtual_ok h
        refine ⟨declares, by simp [plain], fun v same => ?_⟩
        cases same
        exact ⟨className, class_eq, fun shape => absurd shape other, may_run⟩

end Environment

/-! What becomes of the answer. -/

namespace HostMethod

/-- What a caller gets when the body of a method ends this way. -/
def verdict (m : HostMethod) (h : Hierarchy) (result : Except Fault Operand) :
    Except Fault (Option Operand) := do
  let operand ← result
  if m.sig.returnsVoid then
    return none
  match m.mismatch? operand with
  | some fault => throw fault
  | none =>
      match operand with
      | .ref v =>
          if h.isInstance m.sig.ret v then return some (.ref v)
          else throw (.returnMismatch m.qualifiedName m.sig.ret.text v.className)
      | .prim x => return some (.prim x)

/-- The world once the body of a method has run. -/
def ran (m : HostMethod) (target : Option Value) (args : List Operand) (w : World) : World :=
  { heap := (m.body ⟨target, args⟩ w.heap).2
    calls := w.calls.push (.host m target args (m.body ⟨target, args⟩ w.heap).1) }

/-- A result that passes is of the declared kind. -/
theorem verdict_gives (m : HostMethod) (h : Hierarchy) (result : Except Fault Operand)
    (answer : Option Operand) (ok : m.verdict h result = .ok answer) : m.sig.ret.Gives answer := by
  obtain ⟨operand, -, passed⟩ := (except_bind_ok_iff _ _ _).mp ok
  have void_eq : m.sig.returnsVoid = m.sig.ret.isVoid := rfl
  rw [void_eq] at passed
  unfold mismatch? at passed
  cases ret : m.sig.ret with
  | void =>
      rw [ret] at passed
      cases passed
      rfl
  | prim kind =>
      rw [ret] at passed
      cases operand with
      | ref v => cases passed
      | prim x =>
          by_cases fits : x.kind = kind
          · simp [Ty.isVoid, Ty.prim?, fits] at passed
            cases passed
            exact ⟨x, rfl, fits⟩
          · simp [Ty.isVoid, Ty.prim?, fits] at passed
  | named _ | array _ =>
      rw [ret] at passed
      cases operand with
      | prim x => cases passed
      | ref v =>
          dsimp [Ty.isVoid, Ty.prim?] at passed
          split at passed
          · cases passed
            exact ⟨v, rfl⟩
          · cases passed

theorem mismatch?_ne_internal (m : HostMethod) (result : Operand) (defect : Defect) :
    m.mismatch? result ≠ some (.internal defect) := by
  unfold mismatch?
  dsimp only
  intro same
  obtain ⟨-, other⟩ := Option.ite_none_left_eq_some.mp same
  cases other

/-- Nothing but the body itself makes an internal fault of its result. -/
theorem verdict_internal (m : HostMethod) (h : Hierarchy) (result : Except Fault Operand)
    (defect : Defect) (fault : m.verdict h result = .error (.internal defect)) :
    result = .error (.internal defect) := by
  cases result with
  | error raised =>
      cases fault
      rfl
  | ok operand =>
      rw [verdict, except_ok_bind] at fault
      split at fault
      · cases fault
      · cases mismatch : m.mismatch? operand with
        | some other =>
            rw [mismatch] at fault
            cases fault
            exact absurd mismatch (m.mismatch?_ne_internal operand defect)
        | none =>
            rw [mismatch] at fault
            cases operand with
            | prim x => cases fault
            | ref v =>
                dsimp only at fault
                split at fault
                · cases fault
                · cases fault

end HostMethod

namespace Environment

/-- A call with fitting operands runs the body once, and records that. -/
theorem call_accepted (env : Environment) (m : HostMethod) (target : Option Value)
    (args : List Operand) (accepted : m.checkArguments args = .ok ()) (w : World) :
    env.call m target args w =
      (m.verdict env.hierarchy (m.body ⟨target, args⟩ w.heap).1, m.ran target args w) := by
  rw [call, Exec.bind_apply, Exec.lift_apply, accepted]
  dsimp only
  rw [Exec.bind_apply, HostMethod.call, Exec.bind_apply]
  have outside : World.outside (m.body ⟨target, args⟩) (OutsideCall.host m target args) w =
      ((m.body ⟨target, args⟩ w.heap).1, m.ran target args w) := rfl
  rw [outside]
  cases (m.body ⟨target, args⟩ w.heap).1 with
  | error fault => rfl
  | ok operand =>
      rw [HostMethod.verdict, except_ok_bind]
      dsimp only
      cases m.sig.returnsVoid with
      | true => rfl
      | false =>
          simp only [Bool.false_eq_true, if_false]
          cases m.mismatch? operand with
          | some fault => rfl
          | none =>
              cases operand with
              | prim x => rfl
              | ref v =>
                  change (if env.hierarchy.isInstance m.sig.ret v then pure (some (.ref v)) else
                    throw (.returnMismatch m.qualifiedName m.sig.ret.text v.className) :
                      Exec (Option Operand)) _ = (_, _)
                  dsimp only
                  split
                  · rfl
                  · rfl

theorem call_rejected (env : Environment) (m : HostMethod) (target : Option Value)
    (args : List Operand) (fault : Fault) (rejected : m.checkArguments args = .error fault)
    (w : World) : env.call m target args w = (.error fault, w) := by
  rw [call, Exec.bind_apply, Exec.lift_apply, rejected]

/-- The call of a method is refused and nothing happens, or the body of one method runs. -/
theorem invoke_cases (env : Environment) (m : Method) (target : Option Value)
    (args : List Operand) (w : World) :
    (∃ fault, env.invoke m target args w = (.error fault, w) ∧
      (env.resolve m target = .error fault ∨ ∃ answering, env.Answers m target answering ∧
        answering.checkArguments args = .error fault)) ∨
    ∃ answering, env.Answers m target answering ∧
      env.invoke m target args w =
        (answering.verdict env.hierarchy (answering.body ⟨target, args⟩ w.heap).1,
          answering.ran target args w) := by
  rw [env.invoke_eq, Exec.bind_apply, Exec.lift_apply]
  cases resolved : env.resolve m target with
  | error fault => exact .inl ⟨fault, rfl, .inl rfl⟩
  | ok answering =>
      dsimp only
      have answers := env.resolve_ok m target answering resolved
      cases accepted : answering.checkArguments args with
      | error fault =>
          rw [env.call_rejected answering target args fault accepted]
          exact .inl ⟨fault, rfl, .inr ⟨answering, answers, accepted⟩⟩
      | ok _ =>
          rw [env.call_accepted answering target args accepted]
          exact .inr ⟨answering, answers, rfl⟩

end Environment

theorem Ty.gives_erased_iff (ty : Ty) (result : Option Operand) :
    ty.erased.Gives result ↔ ty.Gives result := by
  cases ty <;> rfl

/-- A result of the kind that one signature declares is of the kind that another of the same
descriptor declares. -/
theorem Signature.gives_of_descriptor (sig other : Signature)
    (h : sig.descriptor = other.descriptor) (result : Option Operand)
    (gives : sig.ret.Gives result) : other.ret.Gives result := by
  rw [← Ty.gives_erased_iff, ← sig.erased_ret_eq other h, Ty.gives_erased_iff]
  exact gives

theorem Environment.invoke_gives (env : Environment) (m : Method) (target : Option Value)
    (args : List Operand) (w u : World) (result : Option Operand)
    (h : env.invoke m target args w = (.ok result, u)) : m.ret.Gives result := by
  obtain ⟨fault, refused, -⟩ | ⟨answering, answers, ran⟩ := env.invoke_cases m target args w
  · rw [refused] at h
    cases h
  · rw [ran] at h
    have descriptor_eq := answers.declares.descriptor_eq
    refine answering.sig.gives_of_descriptor m.signature descriptor_eq result ?_
    exact answering.verdict_gives _ _ result (Prod.mk.inj h).1

end TokenDispatch
