import TokenDispatch.Proofs.ArgumentChecks
import TokenDispatch.Proofs.InterfaceSearch
import TokenDispatch.Proofs.Resolution
import TokenDispatch.Proofs.SuperclassChains

/-!
Calls of host methods, whatever their kind. A request names a method and an owner to look for it
from. What is found there is what runs, unless the class of the receiver, or one that it extends,
declares the same method itself.
-/

namespace TokenDispatch

/-- How a method is called: on no object, through a class, or through an interface. -/
inductive Manner where
  | static
  | virtual (receiver : Value)
  | interface (receiver : Value)

structure Request where
  manner : Manner
  owner : String
  name : String
  sig : Signature

def Request.receiver? (r : Request) : Option Value :=
  match r.manner with
  | .static => none
  | .virtual receiver | .interface receiver => some receiver

theorem Request.receiver?_eq_none_iff {r : Request} :
    r.receiver? = none ↔ r.manner = .static := by
  rw [receiver?]
  split <;> simp [*]

theorem Value.class?_eq_none_iff {v : Value} : v.class? = none ↔ v = .null := by
  cases v <;> simp [class?]

namespace Environment

variable (env : Environment) (r : Request)

def perform (args : List Operand) : Exec (Option Operand) :=
  match r.manner with
  | .static => env.invokeStatic r.owner r.name r.sig args
  | .virtual receiver => env.invokeVirtual r.owner r.name r.sig receiver args
  | .interface receiver => env.invokeInterface r.owner r.name r.sig receiver args

/-- The host method that a request comes to. -/
def target : Except Fault HostMethod :=
  match r.manner with
  | .static => env.resolveStatic r.owner r.name r.sig.descriptor
  | .virtual receiver => env.resolveVirtual r.owner r.name r.sig.descriptor receiver
  | .interface receiver => env.resolveInterface r.owner r.name r.sig.descriptor receiver

theorem perform_eq (args : List Operand) :
    env.perform r args = (do
      let m ← env.target r
      env.call m r.receiver? args) := by
  unfold perform target Request.receiver?
  cases r.manner <;> rfl

/-- What is found from the owner, before the class of a receiver comes into it. -/
def found? : Option HostMethod :=
  match r.manner with
  | .static => env.findStatic? r.owner r.name r.sig.descriptor
  | .virtual _ => (env.findOnChain? r.owner r.name r.sig.descriptor).or
      (env.findInInterfaces? r.owner r.name r.sig.descriptor)
  | .interface _ => env.findInInterfaces? r.owner r.name r.sig.descriptor

/-! What answers a request, said of the hierarchy and not of the searches in it. -/

/-- The method that a class itself declares under the name and the descriptor of a request. -/
def declared? (className : String) : Option HostMethod :=
  env.methods.find? className r.name r.sig.descriptor

/-- The same, where static methods do not count. -/
def instance? (className : String) : Option HostMethod :=
  env.methods.findInstance? className r.name r.sig.descriptor

/-- What is found from the owner of a request: for a static call the first method of any kind up
from the owner, for a call through a class the first instance method up from it, or else that of the
nearest interface, and for a call through an interface that of the nearest interface. -/
inductive Resolves : HostMethod → Prop
  | static {m : HostMethod} (manner : r.manner = .static)
      (inherits : env.hierarchy.Inherits (env.declared? r) r.owner m) : Resolves m
  | inherited {receiver : Value} {m : HostMethod} (manner : r.manner = .virtual receiver)
      (inherits : env.hierarchy.Inherits (env.instance? r) r.owner m) : Resolves m
  | default {receiver : Value} {m : HostMethod} (manner : r.manner = .virtual receiver)
      (missing : ∀ via, env.hierarchy.Extends r.owner via → env.instance? r via = none)
      (nearest : env.Nearest r.owner r.name r.sig.descriptor m) : Resolves m
  | interface {receiver : Value} {m : HostMethod} (manner : r.manner = .interface receiver)
      (nearest : env.Nearest r.owner r.name r.sig.descriptor m) : Resolves m

/-- Whether there is nothing to be found from the owner of a request. -/
def Unresolved : Prop :=
  match r.manner with
  | .static => ∀ via, env.hierarchy.Extends r.owner via → env.declared? r via = none
  | .virtual _ =>
      (∀ via, env.hierarchy.Extends r.owner via → env.instance? r via = none) ∧
        ∀ via, env.hierarchy.Below r.owner via → ∀ m, ¬ env.Offers r.name r.sig.descriptor via m
  | .interface _ =>
      ∀ via, env.hierarchy.Below r.owner via → ∀ m, ¬ env.Offers r.name r.sig.descriptor via m

/-- An interface takes receivers of the classes below it; any class takes all. -/
def Admits (className : String) : Prop :=
  match r.manner with
  | .interface _ => r.owner = ClassName.object ∨ env.hierarchy.Below className r.owner
  | _ => True

/-- The method whose body a request runs. A receiver's own class comes before all that resolution
found. -/
inductive Selects : HostMethod → Prop
  | static {m : HostMethod} (manner : r.manner = .static) (resolves : env.Resolves r m)
      (static : m.isStatic = true) : Selects m
  | override {receiver : Value} {className : String} {declared m : HostMethod}
      (receiver_eq : r.receiver? = some receiver) (class_eq : receiver.class? = some className)
      (admits : env.Admits r className) (resolves : env.Resolves r declared)
      (inherits : env.hierarchy.Inherits (env.instance? r) className m) : Selects m
  | declared {receiver : Value} {className : String} {m : HostMethod}
      (receiver_eq : r.receiver? = some receiver) (class_eq : receiver.class? = some className)
      (admits : env.Admits r className) (resolves : env.Resolves r m)
      (missing : ∀ via, env.hierarchy.Extends className via → env.instance? r via = none) :
      Selects m

variable {env r}

/-! Where the searches lead. -/

theorem found?_eq_some_iff (grounded : env.hierarchy.Grounded) (m : HostMethod) :
    env.found? r = some m ↔ env.Resolves r m := by
  constructor
  · intro found
    rw [found?] at found
    split at found
    · rename_i manner
      exact .static manner ((grounded.findSome?_chain_eq_some_iff m).mp found)
    · rename_i manner
      obtain on_chain | ⟨missing, nearest⟩ := Option.or_eq_some_iff.mp found
      · exact .inherited manner ((grounded.findSome?_chain_eq_some_iff m).mp on_chain)
      · exact .default manner (grounded.findSome?_chain_eq_none_iff.mp missing)
          ((env.findInInterfaces?_eq_some_iff _ _ _ m).mp nearest)
    · rename_i manner
      exact .interface manner ((env.findInInterfaces?_eq_some_iff _ _ _ m).mp found)
  · intro resolves
    cases resolves with
    | static manner inherits =>
        simp only [found?, manner]
        exact (grounded.findSome?_chain_eq_some_iff m).mpr inherits
    | inherited manner inherits =>
        simp only [found?, manner]
        have on_chain := (grounded.findSome?_chain_eq_some_iff m).mpr inherits
        exact Option.or_eq_some_iff.mpr (.inl on_chain)
    | default manner missing nearest =>
        simp only [found?, manner]
        have none_on_chain := grounded.findSome?_chain_eq_none_iff.mpr missing
        have in_interfaces := (env.findInInterfaces?_eq_some_iff _ _ _ m).mpr nearest
        exact Option.or_eq_some_iff.mpr (.inr ⟨none_on_chain, in_interfaces⟩)
    | interface manner nearest =>
        simp only [found?, manner]
        exact (env.findInInterfaces?_eq_some_iff _ _ _ m).mpr nearest

theorem found?_eq_none_iff (grounded : env.hierarchy.Grounded) :
    env.found? r = none ↔ env.Unresolved r := by
  rw [found?, Unresolved]
  split
  · exact grounded.findSome?_chain_eq_none_iff
  · rw [Option.or_eq_none_iff, findInInterfaces?_eq_none_iff]
    exact and_congr_left' grounded.findSome?_chain_eq_none_iff
  · exact env.findInInterfaces?_eq_none_iff _ _ _

/-! From what was found to what runs. -/

theorem target_of_static (manner : r.manner = .static) : env.target r =
    match env.found? r with
    | none => .error (.noSuchMethodError r.owner r.name r.sig.descriptor)
    | some m =>
        if m.isStatic then .ok m else .error (.notStatic r.owner r.name r.sig.descriptor) := by
  simp only [target, found?, manner]
  rfl

theorem target_of_null (receiver_eq : r.receiver? = some .null) :
    env.target r = .error (.nullReceiver r.owner r.name) := by
  obtain ⟨manner, owner, name, sig⟩ := r
  cases manner with
  | static => cases receiver_eq
  | virtual _ | interface _ =>
      cases receiver_eq
      rfl

/-- A receiver that an interface does not take is refused before any method is looked for. -/
theorem target_of_not_admits {receiver : Value} {className : String}
    (receiver_eq : r.receiver? = some receiver) (class_eq : receiver.class? = some className)
    (refused : ¬ env.Admits r className) :
    env.target r = .error (.notImplemented className r.owner) := by
  obtain ⟨manner, owner, name, sig⟩ := r
  cases manner with
  | static => cases receiver_eq
  | virtual _ => exact absurd trivial refused
  | interface _ =>
      cases receiver_eq
      have apart : env.hierarchy.isSubtype className owner = false :=
        Bool.eq_false_iff.mpr (mt Hierarchy.isSubtype_iff.mp refused)
      simp only [target, resolveInterface, receiverClass, class_eq, except_ok_bind, apart]
      rfl

theorem target_of_admits {receiver : Value} {className : String}
    (receiver_eq : r.receiver? = some receiver) (class_eq : receiver.class? = some className)
    (admits : env.Admits r className) : env.target r =
      match env.found? r with
      | none => .error (.noSuchMethodError r.owner r.name r.sig.descriptor)
      | some m => .ok (env.select className r.name r.sig.descriptor m) := by
  obtain ⟨manner, owner, name, sig⟩ := r
  cases manner with
  | static => cases receiver_eq
  | virtual _ =>
      cases receiver_eq
      simp only [target, resolveVirtual, receiverClass, class_eq, except_ok_bind]
      rfl
  | interface _ =>
      cases receiver_eq
      have implements : env.hierarchy.isSubtype className owner = true :=
        Hierarchy.isSubtype_iff.mpr admits
      simp only [target, resolveInterface, receiverClass, class_eq, except_ok_bind, implements]
      rfl

theorem select_of_inherits (grounded : env.hierarchy.Grounded) {className : String}
    {m : HostMethod} (inherits : env.hierarchy.Inherits (env.instance? r) className m)
    (declared : HostMethod) : env.select className r.name r.sig.descriptor declared = m := by
  have on_chain : env.findOnChain? className r.name r.sig.descriptor = some m :=
    (grounded.findSome?_chain_eq_some_iff m).mpr inherits
  rw [select, on_chain, Option.getD_some]

theorem select_of_missing (grounded : env.hierarchy.Grounded) {className : String}
    (missing : ∀ via, env.hierarchy.Extends className via → env.instance? r via = none)
    (declared : HostMethod) :
    env.select className r.name r.sig.descriptor declared = declared := by
  have none_on_chain : env.findOnChain? className r.name r.sig.descriptor = none :=
    grounded.findSome?_chain_eq_none_iff.mpr missing
  rw [select, none_on_chain, Option.getD_none]

theorem target_of_selects (grounded : env.hierarchy.Grounded) {m : HostMethod}
    (selects : env.Selects r m) : env.target r = .ok m := by
  cases selects with
  | static manner resolves static =>
      rw [target_of_static manner, (found?_eq_some_iff grounded m).mpr resolves]
      exact if_pos static
  | override receiver_eq class_eq admits resolves inherits =>
      rw [target_of_admits receiver_eq class_eq admits,
        (found?_eq_some_iff grounded _).mpr resolves]
      exact congrArg Except.ok (select_of_inherits grounded inherits _)
  | declared receiver_eq class_eq admits resolves missing =>
      rw [target_of_admits receiver_eq class_eq admits,
        (found?_eq_some_iff grounded _).mpr resolves]
      exact congrArg Except.ok (select_of_missing grounded missing _)

/-! Runs. -/

/-- A call that runs the body of one host method, once, and answers what becomes of its result. -/
def Runs (env : Environment) (m : HostMethod) (receiver : Option Value) (args : List Operand)
    (call : Exec (Option Operand)) : Prop :=
  ∀ w, call w =
    (m.verdict env.hierarchy (m.body ⟨receiver, args⟩ w.heap).1, m.ran receiver args w)

theorem perform_runs {m : HostMethod} {args : List Operand} (target : env.target r = .ok m)
    (accepts : m.Accepts args) : env.Runs m r.receiver? args (env.perform r args) := by
  intro w
  have accepted := (m.checkArguments_eq_ok_iff args).mpr accepts
  rw [perform_eq, target, ← env.call_accepted m r.receiver? args accepted w]
  rfl

theorem perform_of_misfits {m : HostMethod} {args : List Operand} {fault : Fault}
    (target : env.target r = .ok m) (misfits : m.Misfits args fault) (w : World) :
    env.perform r args w = (.error fault, w) := by
  have rejected := (m.checkArguments_eq_error_iff args fault).mpr misfits
  rw [perform_eq, target, ← env.call_rejected m r.receiver? args fault rejected w]
  rfl

theorem perform_of_error {args : List Operand} {fault : Fault}
    (target : env.target r = .error fault) (w : World) :
    env.perform r args w = (.error fault, w) := by
  rw [perform_eq, target]
  rfl

/-! A square and a disk, called through an interface and through a superclass. -/

def shapes : Environment :=
  let flat := Hierarchy.builtin.defineInterface "Flat" []
  let classes := (flat.defineClass "Disk" none ["Flat"]).defineClass "Polygon" none ["Flat"]
  ⟨classes.defineClass "Square" (some "Polygon") [], ⟨["Flat", "Polygon", "Square"].map areaOf⟩⟩

def areaCall (manner : Manner) (owner : String) : Request :=
  ⟨manner, owner, "area", ⟨[], .prim .int⟩⟩

theorem shapes_grounded : shapes.hierarchy.Grounded := by decide +kernel

theorem areaOf_accepts (owner : String) : (areaOf owner).Accepts [] := ⟨rfl, nofun⟩

theorem shapes_resolves_flat (receiver : Value) :
    shapes.Resolves (areaCall (.interface receiver) "Flat") (areaOf "Flat") :=
  .interface rfl ((shapes.nearest_iff _ _ _ _).mpr ⟨0, rfl, nofun⟩)

end Environment

end TokenDispatch
