import TokenDispatch.Proofs.Defects
import TokenDispatch.Proofs.Subtyping

/-!
What host methods are called with. Of all that an invocation records, every call of a host method is
made for the method that the token stands for: the host method is registered with the very signature
of that method, its operands fit the parameters, and a receiver, if there is one, is an instance of
the class that the host method was registered on.
-/

namespace TokenDispatch

/-! Calls that were added to a record. -/

/-- Every call that one world records beyond another has a property. -/
def World.Adds (w u : World) (P : OutsideCall → Prop) : Prop :=
  ∀ i ≥ w.calls.size, ∀ call, u.calls[i]? = some call → P call

/-- An action all of whose calls have a property. -/
def Exec.Makes {α : Type} (x : Exec α) (P : OutsideCall → Prop) : Prop :=
  ∀ w : World, w.Adds (x w).2 P

namespace World.Adds

variable {w u v : World} {P : OutsideCall → Prop}

theorem same (w : World) (P : OutsideCall → Prop) : w.Adds w P := by
  intro i le call found
  rw [Array.getElem?_eq_none le] at found
  cases found

theorem push (call : OutsideCall) (calls : u.calls = w.calls.push call) (holds : P call) :
    w.Adds u P := by
  intro i le other found
  rw [calls, Array.getElem?_push] at found
  split at found
  · cases found
    exact holds
  · rw [Array.getElem?_eq_none le] at found
    cases found

theorem before (adds : w.Adds u P) (h : v.Before u) : w.Adds v P := by
  intro i le call found
  apply adds i le call
  obtain ⟨later, whole⟩ := h
  obtain ⟨lt, -⟩ := Array.getElem?_eq_some_iff.mp found
  rw [← Array.getElem?_toList, ← whole, List.getElem?_append_left (by simpa using lt),
    Array.getElem?_toList]
  exact found

theorem trans (first : w.Adds v P) (later : v.Adds u P) (h : v.Before u) : w.Adds u P := by
  intro i le call found
  by_cases lt : i < v.calls.size
  · obtain ⟨more, whole⟩ := h
    refine first i le call ?_
    rw [← found, ← Array.getElem?_toList, ← Array.getElem?_toList, ← whole,
      List.getElem?_append_left (by simpa using lt)]
  · exact later i (Nat.not_lt.mp lt) call found

theorem mono {Q : OutsideCall → Prop} (adds : w.Adds u P) (weaker : ∀ call, P call → Q call) :
    w.Adds u Q :=
  fun i le call found => weaker call (adds i le call found)

end World.Adds

/-! Calls that are made for a method. -/

/-- A receiver whose class is below a class or an interface. -/
def Hierarchy.Receives (h : Hierarchy) (owner : String) (receiver : Value) : Prop :=
  receiver.isNull = false ∧
    ∃ className, receiver.class? = some className ∧ h.isSubtype className owner = true

/-- A host method that runs for a method, with what it is given. -/
structure Method.RunsWith (m : Method) (env : Environment) (h : HostMethod)
    (target : Option Value) (args : List Operand) : Prop where
  registered : h ∈ env.methods.methods
  name_eq : h.name = m.name
  sig_eq : h.sig = m.signature
  fit : env.hierarchy.FitAll m.params args
  static : h.isStatic = true → target = none
  instance_ : h.isStatic = false → ∃ v, target = some v ∧ env.hierarchy.Receives h.owner v

/-- A call outside that is no call of a host method, or one that is made for a method. -/
def Method.MadeFor (m : Method) (env : Environment) : OutsideCall → Prop
  | .host h target args _ => m.RunsWith env h target args
  | .init _ | .fallback _ _ _ _ => True

namespace Environment

variable {env : Environment} {m : Method}

/-- A receiver below the owner of a call is below the owner of whatever method answers. -/
theorem Answers.receives (rooted : env.hierarchy.Rooted) (v : Value) (answering : HostMethod)
    (answers : env.Answers m (some v) answering)
    (instance_ : env.hierarchy.isInstance (.named m.target.text) v = true) :
    env.hierarchy.Receives answering.owner v := by
  obtain ⟨className, class_eq, -, may_run⟩ := answers.receiver v rfl
  have not_null : v.isNull = false := by
    cases v with
    | null => cases class_eq
    | boxed _ | string _ | array _ | object _ _ => rfl
  have below_owner : env.hierarchy.isSubtype className m.target.text = true := by
    rw [Hierarchy.isInstance, not_null, class_eq] at instance_
    exact instance_
  refine ⟨not_null, className, class_eq, ?_⟩
  obtain selected | inherited | declared := may_run
  · exact Hierarchy.isSubtype_iff.mpr (.inr (Hierarchy.below_of_mem_chain _ _ selected))
  · exact rooted.isSubtype_of_below _ _ _ below_owner (Hierarchy.below_of_mem_chain _ _ inherited)
  · exact rooted.isSubtype_of_below _ _ _ below_owner
      ((Hierarchy.mem_reachable_iff _ _).mp declared)

/-- An invocation calls nothing, or the host method that answers. -/
theorem invoke_makes (P : OutsideCall → Prop) (target : Option Value) (args : List Operand)
    (answered : ∀ answering result, env.Answers m target answering →
      P (.host answering target args result)) : (env.invoke m target args).Makes P := by
  intro w
  obtain ⟨fault, refused, -⟩ | ⟨answering, answers, ran⟩ := env.invoke_cases m target args w
  · rw [refused]
    exact .same w _
  · rw [ran]
    exact .push (.host answering target args (answering.body ⟨target, args⟩ w.heap).1) rfl
      (answered answering _ answers)

theorem invoke_madeFor (rooted : env.hierarchy.Rooted) (delimited : m.signature.Delimited)
    (registered : ∀ h ∈ env.methods.methods, h.sig.Delimited) (target : Option Value)
    (args : List Operand) (fit : env.hierarchy.FitAll m.params args)
    (receiver : ∀ v ∈ target, env.hierarchy.isInstance (.named m.target.text) v = true) :
    (env.invoke m target args).Makes (m.MadeFor env) := by
  refine invoke_makes _ target args fun answering result answers => ?_
  refine ⟨answers.declares.registered, answers.declares.name_eq,
    sig_eq_of_answers delimited registered target answering answers, fit,
    answers.static_iff.mp, fun plain => ?_⟩
  cases target with
  | none =>
      rw [answers.static_iff.mpr rfl] at plain
      cases plain
  | some v => exact ⟨v, rfl, answers.receives rooted v answering (receiver v rfl)⟩

end Environment

theorem Contract.runFallback_makes (contract : Contract) (P : OutsideCall → Prop) (token : Int32)
    (receiver arguments : Value)
    (recorded : ∀ result, P (.fallback token receiver arguments result)) :
    (contract.runFallback token receiver arguments).Makes P :=
  fun w => .push (.fallback token receiver arguments
    (contract.fallback token receiver arguments w.heap).1) rfl (recorded _)

/-- The fallback that a call reaches is one of the base. -/
theorem Program.callFallback_makes (p : Program) (P : OutsideCall → Prop) (args : List Operand)
    (recorded : ∀ token receiver arguments result, P (.fallback token receiver arguments result)) :
    (p.callFallback args).Makes P := by
  intro w
  obtain ⟨defect, -, failed⟩ | ⟨token, receiver, vs, ran⟩ := p.callFallback_cases args w
  · rw [failed]
    exact .same w _
  · rw [ran]
    exact p.contract.runFallback_makes P token receiver vs (recorded token receiver vs) w

theorem Method.coerceReceiver_instance (m : Method) (h : Hierarchy) (receiver v : Value)
    (ok : m.coerceReceiver h receiver = .ok (some v)) : h.isInstance m.target v = true := by
  rw [coerceReceiver] at ok
  split at ok
  · cases ok
  · obtain ⟨_, cast, rest⟩ := (except_bind_ok_iff _ _ _).mp ok
    cases rest
    exact h.isInstance_of_checkCast _ _ cast

/-- The evaluation of a method makes the calls of whoever answers, given coerced operands. -/
theorem Method.evaluate_makes (m : Method) (h : Hierarchy) (P : OutsideCall → Prop)
    (call : Option Value → List Operand → Exec (Option Operand))
    (makes : ∀ target args, h.FitAll m.params args →
      (∀ v ∈ target, h.isInstance m.target v = true) → (call target args).Makes P)
    (receiver arguments : Value) : (m.evaluate h call receiver arguments).Makes P := by
  intro w
  rw [m.evaluate_apply]
  cases operands : m.operands h receiver arguments with
  | error fault => exact .same w P
  | ok laid =>
      obtain ⟨target, args⟩ := laid
      obtain ⟨receiver_ok, args_ok⟩ := m.operands_ok h receiver arguments target args operands
      have made := makes target args (h.coerceElements_fitAll arguments m.params 0 args args_ok)
        (fun v same => by
          cases same
          exact m.coerceReceiver_instance h receiver v receiver_ok) w
      dsimp only
      generalize call target args w = outcome at made ⊢
      obtain ⟨fault | result, u⟩ := outcome
      · exact made
      · exact made

namespace Dispatcher

variable {d : Dispatcher} {options : Options} {unit : String} {methods : List Method}
  {env : Environment} {contract : Contract}

theorem Answers.adds {token : Int32} {receiver arguments : Value} {action : Exec Value}
    (answers : d.Answers token receiver arguments action) (P : OutsideCall → Prop)
    (makes : action.Makes P) (steps : Nat) (w : World) :
    w.Adds (d.invoke steps token receiver arguments w).2 P := by
  obtain ⟨enough, run⟩ := answers w
  by_cases le : enough ≤ steps
  · rw [(run steps).1 le]
    exact makes w
  · obtain ⟨u, exhausted, before⟩ := (run steps).2 (Nat.lt_of_not_le le)
    rw [exhausted]
    exact (makes w).before before

theorem Serves.respond_makes (serves : d.Serves options unit methods env contract)
    (rooted : env.hierarchy.Rooted) (m : Method) (callable : m.Callable)
    (delimited : m.signature.Delimited) (registered : ∀ h ∈ env.methods.methods, h.sig.Delimited)
    (target : Option Value) (args : List Operand) (fit : env.hierarchy.FitAll m.params args)
    (receiver : ∀ v ∈ target, env.hierarchy.isInstance m.target v = true) :
    (d.respond m target args).Makes (m.MadeFor env) := by
  rw [serves.respond_eq m]
  split
  · exact d.callFallback_makes _ args fun _ _ _ _ => trivial
  · rw [callable.owner] at receiver
    exact Environment.invoke_madeFor rooted delimited registered target args fit receiver

/-- Whatever an invocation records of host methods is made for the method that its token stands
for. In particular a token that stands for none calls no host method. -/
theorem invoke_host_calls (steps : Nat) (options : Options) (unit : String)
    (methods : List Method) (env : Environment) (contract : Contract) (w₀ v : World)
    (marked : List Method) (d : Dispatcher)
    (compiled : compile steps options unit methods env contract w₀ = (marked, .done d, v))
    (delimited : ∀ m ∈ methods, m.signature.Delimited)
    (registered : ∀ h ∈ env.methods.methods, h.sig.Delimited) (rooted : env.hierarchy.Rooted)
    (steps' : Nat) (token : Int32) (receiver arguments : Value) (w u : World)
    (outcome : Outcome Fault Value)
    (invoked : d.invoke steps' token receiver arguments w = (outcome, u)) :
    ∀ i ≥ w.calls.size, ∀ h target args result,
      u.calls[i]? = some (.host h target args result) →
        ∃ position m, token = positionKey position ∧ methods[position]? = some m ∧
          m.RunsWith env h target args := by
  have serves := compile_serves steps options unit methods env contract w₀ v marked d compiled
  have world : (d.invoke steps' token receiver arguments w).2 = u := by rw [invoked]
  intro i le h target args result found
  cases token_cases methods token with
  | inl carried =>
      obtain ⟨position, m, at_position, same⟩ := carried
      have mem := List.mem_of_getElem? at_position
      have answers := serves.answers_method position m at_position receiver arguments
      rw [← same] at answers
      have makes := m.evaluate_makes env.hierarchy _ (d.respond m)
        (serves.respond_makes rooted m (serves.lays.callable m mem) (delimited m mem) registered)
        receiver arguments
      have adds := answers.adds _ makes steps' w
      rw [world] at adds
      exact ⟨position, m, same, at_position, adds i le _ found⟩
  | inr other =>
      have answers := serves.answers_other token other receiver arguments
      have adds := answers.adds
        (fun call => ∀ h target args result, call ≠ .host h target args result)
        (fun w => .push (.fallback token receiver arguments
          (contract.fallback token receiver arguments w.heap).1) rfl nofun) steps' w
      rw [world] at adds
      exact absurd rfl (adds i le _ found h target args result)

/-! A string that is asked for its length. -/

def lengthBody : HostMethod :=
  { owner := ClassName.string
    name := "length"
    sig := ⟨[], .prim .int⟩
    isStatic := false
    body := fun _ heap => (.ok (.int 3), heap) }

theorem invoke_host_calls_of_string :
    ∃ marked d v, compile 8 {} "U" [freeMethod] { methods := ⟨[lengthBody]⟩ } .rejecting {} =
        (marked, .done d, v) ∧
      ∃ steps result u,
        d.invoke steps (positionKey 0) (.string "abc") .null {} = (.done result, u) ∧
        (∃ answer, u.calls[0]? =
          some (OutsideCall.host lengthBody (some (.string "abc")) [] answer)) ∧
        ∃ position m, positionKey 0 = positionKey position ∧ [freeMethod][position]? = some m ∧
          m.RunsWith { methods := ⟨[lengthBody]⟩ } lengthBody (some (.string "abc")) [] := by
  obtain ⟨marked, d, v, compiled⟩ := compile_of_isDone 8 {} "U" [freeMethod]
    { methods := ⟨[lengthBody]⟩ } .rejecting {} (by decide +kernel)
  have serves := compile_serves _ _ _ _ _ _ _ _ _ d compiled
  have direct := (serves.direct_iff 0 freeMethod rfl).mpr (by decide +kernel)
  obtain ⟨enough, run⟩ := direct (.string "abc") .null {}
  have ends : d.invoke enough (positionKey 0) (.string "abc") .null {} =
      (.done (.boxed (.int 3)), lengthBody.ran (some (.string "abc")) [] {}) :=
    (run enough).1 (Nat.le_refl enough)
  have registered : ∀ h ∈ [lengthBody], h.sig.Delimited :=
    List.forall_mem_singleton.mpr (by decide)
  refine ⟨marked, d, v, compiled, enough, _, _, ends, ⟨_, rfl⟩, ?_⟩
  exact invoke_host_calls _ _ _ _ _ _ _ _ _ d compiled (by decide) registered rfl enough
    (positionKey 0) (.string "abc") .null {} _ _ ends 0 (Nat.le_refl 0) _ _ _ _ rfl

end Dispatcher

end TokenDispatch
