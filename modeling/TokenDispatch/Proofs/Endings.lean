import TokenDispatch.Proofs.Dispatch
import TokenDispatch.Proofs.EndingSearches

/-!
Invocations that end. The machine takes a call outside as one step, but behind that step a method is
searched for, and where a walk up superclasses comes back to a class the search need not end. So an
invocation ends if the machine gets to its end and each search on the way does, too. A token leads
to one call outside at most, and on a grounded hierarchy every invocation ends.
-/

namespace TokenDispatch

/-- The request that a call outside makes; a call without a receiver that needs one makes none, nor
does a special call. -/
def CallSite.request? (site : CallSite) (receiver : Option Value) : Option Request :=
  match site.kind, receiver with
  | .static, _ => some ⟨.static, site.owner, site.name, site.sig⟩
  | .virtual, some receiver => some ⟨.virtual receiver, site.owner, site.name, site.sig⟩
  | .interface, some receiver => some ⟨.interface receiver, site.owner, site.name, site.sig⟩
  | _, _ => none

namespace Program

variable (p : Program)

theorem callOutside_eq (site : CallSite) (receiver : Option Value) (args : List Operand) :
    p.callOutside site receiver args =
      match site.request? receiver with
      | some r => p.env.perform r args
      | none => throw (.internal (.unlinked site.kind site.owner site.name)) := by
  unfold callOutside CallSite.request?
  cases site.kind <;> cases receiver <;> rfl

/-- Whether the search behind a call outside ends, if the call makes a request at all. What it ends
with is the target that the step of the machine goes by (`Environment.Concludes.target_eq`). -/
def Settles (site : CallSite) (receiver : Option Value) : Prop :=
  ∀ r, site.request? receiver = some r → ∃ result, p.env.Concludes r result

theorem settles_of_grounded (grounded : p.env.hierarchy.Grounded) (site : CallSite)
    (receiver : Option Value) : p.Settles site receiver :=
  fun _ _ => ⟨_, Environment.concludes_target grounded⟩

end Program

theorem Method.request?_of_static (m : Method) (static : m.shape = .static)
    (target : Option Value) :
    m.site.request? target = some ⟨.static, m.target.text, m.name, m.signature⟩ := by
  have kind_eq : m.site.kind = .static := congrArg CallShape.kind static
  unfold CallSite.request?
  rw [kind_eq]
  rfl

/-- A static method is looked for from its class upwards, for ever if nothing is found there and the
walk has no end. -/
theorem Program.not_settles_of_endless (p : Program) (m : Method) (static : m.shape = .static)
    (missing : p.env.findStatic? m.target.text m.name m.signature.descriptor = none)
    (endless : ∀ names, ¬ p.env.hierarchy.Ascent m.target.text names) (target : Option Value) :
    ¬ p.Settles m.site target := by
  intro settles
  let r : Request := ⟨.static, m.target.text, m.name, m.signature⟩
  obtain ⟨result, concludes⟩ := settles r (m.request?_of_static static target)
  have refused : p.env.target r =
      .error (.noSuchMethodError r.owner r.name r.sig.descriptor) := by
    change p.env.resolveStatic m.target.text m.name m.signature.descriptor = _
    rw [Environment.resolveStatic, missing]
  rw [← concludes.target_eq, refused] at concludes
  obtain ⟨names, ascent⟩ := concludes.walked fun _ other => by cases other
  exact endless names ascent

namespace Dispatcher

/-- An invocation comes to this end. Each call outside that it makes on the way is one whose search
ends. -/
def Ends (d : Dispatcher) (token : Int32) (receiver arguments : Value) (w : World)
    (result : Except Fault Value) (v : World) : Prop :=
  ∃ r, d.Yields d.Settles (Program.entryStart d.entry d.self token receiver arguments) w r v ∧
    result = entryAnswer r

variable {d : Dispatcher} {options : Options} {unit : String} {methods : List Method}
  {env : Environment} {contract : Contract} {token : Int32} {receiver arguments : Value}
  {w v : World} {result : Except Fault Value}

/-- What ends, ends so with enough steps. -/
theorem Ends.invoke (ends : d.Ends token receiver arguments w result v) :
    ∃ enough, ∀ steps ≥ enough,
      d.invoke steps token receiver arguments w = (.ofExcept result, v) := by
  obtain ⟨r, yields, rfl⟩ := ends
  obtain ⟨enough, run⟩ := d.invoke_of_yields token receiver arguments yields
  exact ⟨enough, fun steps le => (run steps).1 le⟩

/-- An invocation ends as an action does, if its entry point does under this condition. -/
theorem ends_iff_of_yields (condition : Prop) (action : Exec Value)
    (yields_iff : ∀ r, d.Yields d.Settles (Program.entryStart d.entry d.self token receiver
      arguments) w r v ↔
        condition ∧ r = (action w).1.map (fun answer => some (.ref answer)) ∧ v = (action w).2) :
    d.Ends token receiver arguments w result v ↔ condition ∧ action w = (result, v) := by
  constructor
  · rintro ⟨r, yields, rfl⟩
    obtain ⟨holds, rfl, rfl⟩ := (yields_iff r).mp yields
    exact ⟨holds, Prod.ext (entryAnswer_map _).symm rfl⟩
  · rintro ⟨holds, acts⟩
    refine ⟨_, (yields_iff _).mpr ⟨holds, rfl, by rw [acts]⟩, ?_⟩
    rw [acts, entryAnswer_map]

/-- The token of a position: the invocation ends if the search for the method does, and then as the
evaluation of the method ends. -/
theorem Serves.ends_method_iff (serves : d.Serves options unit methods env contract)
    (position : Nat) (m : Method) (found : methods[position]? = some m) :
    d.Ends (positionKey position) receiver arguments w result v ↔
      d.LetsCall d.Settles m receiver arguments ∧
        m.evaluate env.hierarchy (d.respond m) receiver arguments w = (result, v) := by
  rw [← serves.env_eq]
  exact ends_iff_of_yields _ _ fun _ =>
    Program.Yields.entry_method_iff serves.lays serves.entry_code position m found

/-- Every other token: the invocation ends as the fallback does. -/
theorem Serves.ends_other_iff (serves : d.Serves options unit methods env contract)
    (other : ∀ position < methods.length, token ≠ positionKey position) :
    d.Ends token receiver arguments w result v ↔
      contract.runFallback token receiver arguments w = (result, v) := by
  rw [← serves.contract_eq]
  refine (ends_iff_of_yields True _ fun _ => ?_).trans (and_iff_right trivial)
  exact (Program.Yields.entry_other_iff serves.lays serves.entry_code other).trans
    (and_iff_right trivial).symm

theorem Serves.ends_of_grounded (serves : d.Serves options unit methods env contract)
    (grounded : env.hierarchy.Grounded) (token : Int32) (receiver arguments : Value) (w : World) :
    ∃ result v, d.Ends token receiver arguments w result v := by
  cases token_cases methods token with
  | inl carried =>
      obtain ⟨position, m, found, rfl⟩ := carried
      have settles : ∀ site target, d.Settles site target := by
        rw [← serves.env_eq] at grounded
        exact d.settles_of_grounded grounded
      exact ⟨_, _, (serves.ends_method_iff position m found).mpr
        ⟨fun target _ _ _ => settles m.site target, rfl⟩⟩
  | inr other => exact ⟨_, _, (serves.ends_other_iff other).mpr rfl⟩

/-- An invocation that comes to such a search, since its operands are accepted, does not end. -/
theorem Serves.not_ends_of_endless (serves : d.Serves options unit methods env contract)
    (position : Nat) (m : Method) (found : methods[position]? = some m)
    (static : m.shape = .static)
    (accepted : (m.operands env.hierarchy receiver arguments).isOk = true)
    (missing : env.findStatic? m.target.text m.name m.signature.descriptor = none)
    (endless : ∀ names, ¬ env.hierarchy.Ascent m.target.text names) :
    ¬ d.Ends (positionKey position) receiver arguments w result v := by
  intro ends
  obtain ⟨lets, -⟩ := (serves.ends_method_iff position m found).mp ends
  rw [← serves.env_eq] at accepted missing endless
  have free : ¬ m.Captured d.unit.name d.unit.base := fun captured => by
    cases static.symm.trans captured.1
  cases operands : m.operands d.env.hierarchy receiver arguments with
  | error fault =>
      rw [operands] at accepted
      cases accepted
  | ok laid =>
      exact d.not_settles_of_endless m static missing endless laid.1
        (lets laid.1 laid.2 operands free)

end Dispatcher

end TokenDispatch
