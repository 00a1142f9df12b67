import TokenDispatch.Proofs.SubtypeOrder
import TokenDispatch.Proofs.SuperclassChains

/-!
Definitions in order. No name is defined twice, and a superclass is defined before the classes that
extend it. Then the superclasses of a defined name lead over names that were defined before it, so
every walk up superclasses ends. What the interfaces of a class are does not matter.
-/

namespace TokenDispatch

/-- The superclass that a definition names. -/
def Definition.superclass? : Definition → Option String
  | ofClass _ superclass _ => superclass
  | ofInterface _ _ => none

namespace Hierarchy

variable {h : Hierarchy} {d : Definition} {name : String}

def Defines (h : Hierarchy) (name : String) : Prop := (h.find? name).isSome = true

instance (h : Hierarchy) (name : String) : Decidable (h.Defines name) :=
  inferInstanceAs (Decidable (_ = true))

/-- Each definition is of a new name, and the superclass that it names is defined by then. -/
def Ordered (h : Hierarchy) : List Definition → Prop
  | [] => True
  | d :: rest =>
      ¬ h.Defines d.name ∧ (∀ parent ∈ d.superclass?, h.Defines parent) ∧ (h.make d).Ordered rest

instance decidableOrdered (h : Hierarchy) :
    (definitions : List Definition) → Decidable (h.Ordered definitions)
  | [] => inferInstanceAs (Decidable True)
  | d :: rest =>
      have := decidableOrdered (h.make d) rest
      inferInstanceAs (Decidable (_ ∧ _ ∧ _))

/-- Defined names, from which superclasses lead to the root class or to an interface. -/
inductive Settled (h : Hierarchy) : String → Prop
  | top {name : String} {entry : ClassEntry} (found : h.find? name = some entry)
      (last : entry.superclass = none)
      (top : name = ClassName.object ∨ entry.isInterface = true) : Settled h name
  | up {name parent : String} {entry : ClassEntry} (found : h.find? name = some entry)
      (superclass : entry.superclass = some parent) (rest : Settled h parent) : Settled h name

namespace Settled

/-- A definition of a new name hides none of the names on the way. -/
theorem make (fresh : ¬ h.Defines d.name) (settled : h.Settled name) :
    (h.make d).Settled name := by
  have kept (via : String) (entry : ClassEntry) (found : h.find? via = some entry) :
      (h.make d).find? via = some entry := by
    have other : d.name ≠ via := by
      rintro rfl
      exact fresh (Option.isSome_of_eq_some found)
    rw [find?_make d via other, found]
  induction settled with
  | top found last top => exact .top (kept _ _ found) last top
  | up found superclass _ ih => exact .up (kept _ _ found) superclass ih

theorem ascent (settled : h.Settled name) :
    ∃ names last, h.Ascent name names ∧ names.getLast? = some last ∧
      (last = ClassName.object ∨ h.isInterface last = true) := by
  induction settled with
  | @top name entry found last top =>
      refine ⟨[name], name, .top ?_, rfl, top.imp_right fun interface => ?_⟩
      · rw [superclass?, found, Option.bind_some, last]
      · rw [isInterface, found, Option.any_some, interface]
  | @up name parent entry found superclass _ ih =>
      obtain ⟨names, last, rest, at_end, top⟩ := ih
      have step : h.superclass? name = some parent := by
        rw [superclass?, found, Option.bind_some, superclass]
      obtain ⟨tail, rfl⟩ := rest.eq_cons
      exact ⟨_, last, .up step rest, by rwa [List.getLast?_cons_cons], top⟩

end Settled

/-- The root class is defined, since it is what a class extends that names no superclass, and from
every defined name superclasses lead to a top. -/
structure Layered (h : Hierarchy) : Prop where
  root : h.Defines ClassName.object
  settled : ∀ name, h.Defines name → h.Settled name

namespace Layered

theorem make (layered : h.Layered) (fresh : ¬ h.Defines d.name)
    (known : ∀ parent ∈ d.superclass?, h.Defines parent) : (h.make d).Layered := by
  have kept (via : String) (other : d.name ≠ via) (defined : (h.make d).Defines via) :
      (h.make d).Settled via := by
    rw [Defines, find?_make d via other] at defined
    exact (layered.settled via defined).make fresh
  have own : (h.make d).Settled d.name := by
    cases d with
    | ofInterface name parents =>
        exact .top (List.find?_cons_of_pos (beq_self_eq_true name)) rfl (.inr rfl)
    | ofClass name superclass interfaces =>
        refine .up (List.find?_cons_of_pos (beq_self_eq_true name)) rfl ?_
        have parent_defined : h.Defines (superclass.getD ClassName.object) := by
          cases superclass with
          | none => exact layered.root
          | some parent => exact known parent rfl
        exact (layered.settled _ parent_defined).make fresh
  refine ⟨?_, fun via defined => ?_⟩
  · have other : d.name ≠ ClassName.object := fun same => fresh (same ▸ layered.root)
    rw [Defines, find?_make d _ other]
    exact layered.root
  · by_cases same : d.name = via
    · exact same ▸ own
    · exact kept via same defined

theorem makeAll {definitions : List Definition} (layered : h.Layered)
    (ordered : h.Ordered definitions) : (h.makeAll definitions).Layered := by
  induction definitions generalizing h with
  | nil => exact layered
  | cons d rest ih =>
      obtain ⟨fresh, known, later⟩ := ordered
      exact ih (layered.make fresh known) later

theorem grounded (layered : h.Layered) : h.Grounded := by
  intro name
  cases superclass : h.superclass? name with
  | none => exact ⟨[name], .top superclass⟩
  | some parent =>
      obtain ⟨entry, found, -⟩ := Option.bind_eq_some_iff.mp superclass
      obtain ⟨names, -, ascent, -⟩ :=
        (layered.settled name (Option.isSome_of_eq_some found)).ascent
      exact ⟨names, ascent⟩

end Layered

/-! What every hierarchy starts with was made in order itself, from the root class alone. -/

def onlyRoot : Hierarchy := ⟨[⟨ClassName.object, none, [], false⟩]⟩

def builtinDefinitions : List Definition :=
  [.ofInterface ClassName.charSequence [], .ofInterface ClassName.comparable [],
    .ofClass ClassName.number none []] ++
  ((Prim.all.filter Prim.isNumeric).map fun kind =>
    .ofClass kind.wrapper (some ClassName.number) [ClassName.comparable]) ++
  [.ofClass Prim.boolean.wrapper none [ClassName.comparable],
    .ofClass Prim.char.wrapper none [ClassName.comparable],
    .ofClass ClassName.string none [ClassName.charSequence, ClassName.comparable]]

theorem layered_onlyRoot : onlyRoot.Layered := by
  refine ⟨by decide, fun name defined => ?_⟩
  obtain ⟨entry, found⟩ := Option.isSome_iff_exists.mp defined
  cases List.mem_singleton.mp (List.mem_of_find?_eq_some found)
  have root : ClassName.object = name := by simpa using List.find?_some found
  exact .top found rfl (.inl root.symm)

theorem layered_builtin : builtin.Layered := by
  have made : onlyRoot.makeAll builtinDefinitions = builtin := rfl
  rw [← made]
  exact layered_onlyRoot.makeAll (by decide +kernel)

theorem layered_of_ordered {definitions : List Definition}
    (ordered : builtin.Ordered definitions) : (builtin.makeAll definitions).Layered :=
  layered_builtin.makeAll ordered

/-! Without the order there are walks that do not end. -/

/-- The root class is defined anew, and extends itself by that. -/
example : ¬ (builtin.makeAll [.ofClass ClassName.object none []]).Grounded := by decide +kernel

/-- A superclass is defined after the class that extends it. -/
example : ¬ (builtin.makeAll
    [.ofClass "Disk" (some "Ring") [], .ofClass "Ring" (some "Disk") []]).Grounded := by
  decide +kernel

end Hierarchy

end TokenDispatch
