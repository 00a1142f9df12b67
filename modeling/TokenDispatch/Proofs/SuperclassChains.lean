import Mathlib.Data.List.Perm.Subperm
import TokenDispatch.Proofs.Subtyping

/-!
Walks up superclasses that end. Such a walk repeats no name, so it is no longer than there are
definitions, and the chain of a class is the whole of it. The walk from a class on the way is the
rest of the walk.
-/

namespace TokenDispatch

namespace Hierarchy

variable {h : Hierarchy}

/-- The walk from a name up its superclasses, to a name that has no superclass. -/
inductive Ascent (h : Hierarchy) : String → List String → Prop
  | top {name : String} (last : h.superclass? name = none) : Ascent h name [name]
  | up {name parent : String} {names : List String} (superclass : h.superclass? name = some parent)
      (rest : Ascent h parent names) : Ascent h name (name :: names)

/-- Every walk up superclasses ends. -/
def Grounded (h : Hierarchy) : Prop := ∀ name, ∃ names, h.Ascent name names

/-- A class, or what it extends directly or not. -/
abbrev Extends (h : Hierarchy) : String → String → Prop :=
  Relation.ReflTransGen fun name parent => h.superclass? name = some parent

namespace Ascent

variable {name via : String} {names others before after : List String}

theorem eq_cons (ascent : h.Ascent name names) : ∃ rest, names = name :: rest := by
  cases ascent with
  | top _ => exact ⟨[], rfl⟩
  | up _ _ => exact ⟨_, rfl⟩

theorem unique (ascent : h.Ascent name names) (other : h.Ascent name others) : names = others := by
  induction ascent generalizing others with
  | top last =>
      cases other with
      | top _ => rfl
      | up superclass _ => cases last.symm.trans superclass
  | up superclass _ ih =>
      cases other with
      | top last => cases superclass.symm.trans last
      | up superclass' rest =>
          cases superclass.symm.trans superclass'
          exact congrArg _ (ih rest)

theorem suffix (ascent : h.Ascent name names) (split : names = before ++ via :: after) :
    h.Ascent via (via :: after) := by
  induction ascent generalizing before with
  | @top name last =>
      cases before with
      | nil =>
          cases split
          exact .top last
      | cons _ before => cases before <;> cases split
  | @up name parent names superclass rest ih =>
      cases before with
      | nil =>
          cases split
          exact .up superclass rest
      | cons _ before => exact ih (List.cons.inj split).2

theorem of_mem (ascent : h.Ascent name names) (mem : via ∈ names) :
    ∃ before after, names = before ++ via :: after ∧ h.Ascent via (via :: after) := by
  obtain ⟨before, after, split⟩ := List.append_of_mem mem
  exact ⟨before, after, split, ascent.suffix split⟩

/-- A walk that comes back to a name would go on as it did the first time. -/
theorem nodup (ascent : h.Ascent name names) : names.Nodup := by
  induction ascent with
  | top _ => exact List.Pairwise.nil.cons nofun
  | @up name parent names superclass rest ih =>
      refine List.nodup_cons.mpr ⟨fun mem => ?_, ih⟩
      obtain ⟨before, after, split, again⟩ := rest.of_mem mem
      obtain ⟨-, same⟩ := List.cons.inj ((Ascent.up superclass rest).unique again)
      have lengths := congrArg List.length split
      rw [same, List.length_append, List.length_cons] at lengths
      omega

/-- From a class that extends itself no walk ends. -/
theorem superclass_ne (ascent : h.Ascent name names) : h.superclass? name ≠ some name := by
  intro own
  have once := List.nodup_cons.mp (Ascent.up own ascent).nodup
  obtain ⟨rest, rfl⟩ := ascent.eq_cons
  exact once.1 (.head _)

theorem defined (ascent : h.Ascent name names) :
    ∀ via ∈ names.dropLast, via ∈ h.entries.map (·.name) := by
  induction ascent with
  | top _ => exact nofun
  | @up name parent names superclass rest ih =>
      obtain ⟨tail, rfl⟩ := rest.eq_cons
      rw [List.dropLast_cons_cons]
      refine List.forall_mem_cons.mpr ⟨?_, ih⟩
      obtain ⟨entry, found, -⟩ := Option.bind_eq_some_iff.mp superclass
      exact List.mem_map.mpr ⟨entry, List.mem_of_find?_eq_some found,
        by simpa using List.find?_some found⟩

theorem length_le (ascent : h.Ascent name names) : names.length ≤ h.entries.length + 1 := by
  have distinct : names.dropLast.Nodup := ascent.nodup.sublist (List.dropLast_sublist names)
  have le := (distinct.subperm ascent.defined).length_le
  rw [List.length_dropLast, List.length_map] at le
  omega

theorem walk_eq (ascent : h.Ascent name names) (limit : Nat) :
    h.walk name limit = names.take limit := by
  induction ascent generalizing limit with
  | top last =>
      cases limit with
      | zero => rfl
      | succ limit => simp [walk, last]
  | up superclass _ ih =>
      cases limit with
      | zero => rfl
      | succ limit => simp [walk, superclass, ih]

theorem chain_eq (ascent : h.Ascent name names) : h.chain name = names := by
  rw [chain, ascent.walk_eq, List.take_of_length_le ascent.length_le]

theorem mem_iff (ascent : h.Ascent name names) : via ∈ names ↔ h.Extends name via := by
  constructor
  · intro mem
    induction ascent with
    | top _ =>
        cases List.mem_singleton.mp mem
        exact .refl
    | up superclass _ ih =>
        obtain rfl | later := List.mem_cons.mp mem
        · exact .refl
        · exact .head superclass (ih later)
  · intro path
    induction path using Relation.ReflTransGen.head_induction_on generalizing names with
    | refl =>
        obtain ⟨rest, rfl⟩ := ascent.eq_cons
        exact .head _
    | head superclass _ ih =>
        cases ascent with
        | top last => cases superclass.symm.trans last
        | up superclass' rest =>
            cases superclass.symm.trans superclass'
            exact .tail _ (ih rest)

theorem ends (ascent : h.Ascent name names) :
    names.getLast?.map h.superclass? = some none := by
  induction ascent with
  | top last => exact congrArg some last
  | up _ rest ih =>
      obtain ⟨tail, rfl⟩ := rest.eq_cons
      rwa [List.getLast?_cons_cons]

end Ascent

theorem ascent_walk (name : String) (limit : Nat)
    (ends : (h.walk name limit).getLast?.map h.superclass? = some none) :
    h.Ascent name (h.walk name limit) := by
  induction limit generalizing name with
  | zero => cases ends
  | succ limit ih =>
      cases superclass : h.superclass? name with
      | none =>
          simp only [walk, superclass]
          exact .top superclass
      | some parent =>
          simp only [walk, superclass] at ends ⊢
          cases limit with
          | zero => cases superclass.symm.trans (Option.some.inj ends)
          | succ limit =>
              rw [walk, List.getLast?_cons_cons] at ends
              exact .up superclass (ih parent ends)

/-- It is enough to look at the names that are defined. -/
theorem grounded_iff : h.Grounded ↔
    ∀ entry ∈ h.entries, (h.chain entry.name).getLast?.map h.superclass? = some none := by
  constructor
  · intro grounded entry _
    obtain ⟨names, ascent⟩ := grounded entry.name
    rw [ascent.chain_eq]
    exact ascent.ends
  · intro ends name
    cases superclass : h.superclass? name with
    | none => exact ⟨_, .top superclass⟩
    | some parent =>
        obtain ⟨entry, found, -⟩ := Option.bind_eq_some_iff.mp superclass
        have named : entry.name = name := by simpa using List.find?_some found
        rw [← named]
        exact ⟨_, ascent_walk _ _ (ends entry (List.mem_of_find?_eq_some found))⟩

instance (h : Hierarchy) : Decidable h.Grounded := decidable_of_iff' _ grounded_iff

/-! Searches along a walk. -/

variable {α : Type} {declared? : String → Option α} {name : String}

/-- What a class declares itself, or the first class up from it that declares anything. -/
def Inherits (h : Hierarchy) (declared? : String → Option α) (name : String) (a : α) : Prop :=
  ∃ before via after, h.Ascent name (before ++ via :: after) ∧ declared? via = some a ∧
    ∀ other ∈ before, declared? other = none

theorem Ascent.inherits_iff {names : List String} (ascent : h.Ascent name names) (a : α) :
    h.Inherits declared? name a ↔ names.findSome? declared? = some a := by
  rw [List.findSome?_eq_some_iff]
  constructor
  · rintro ⟨before, via, after, walk, rest⟩
    exact ⟨before, via, after, ascent.unique walk, rest⟩
  · rintro ⟨before, via, after, rfl, rest⟩
    exact ⟨before, via, after, ascent, rest⟩

theorem Grounded.findSome?_chain_eq_some_iff (grounded : h.Grounded) (a : α) :
    (h.chain name).findSome? declared? = some a ↔ h.Inherits declared? name a := by
  obtain ⟨names, ascent⟩ := grounded name
  rw [ascent.chain_eq, ascent.inherits_iff]

theorem Grounded.findSome?_chain_eq_none_iff (grounded : h.Grounded) :
    (h.chain name).findSome? declared? = none ↔
      ∀ via, h.Extends name via → declared? via = none := by
  obtain ⟨names, ascent⟩ := grounded name
  simp only [ascent.chain_eq, List.findSome?_eq_none_iff, ascent.mem_iff]

theorem Grounded.exists_inherits (grounded : h.Grounded) {via : String} {a : α}
    (path : h.Extends name via) (declares : declared? via = some a) :
    ∃ b, h.Inherits declared? name b := by
  cases found : (h.chain name).findSome? declared? with
  | none => cases declares.symm.trans (grounded.findSome?_chain_eq_none_iff.mp found via path)
  | some b => exact ⟨b, (grounded.findSome?_chain_eq_some_iff b).mp found⟩

/-- Once it reaches a class, the walk from below goes on as the walk from that class. -/
theorem Grounded.ascent_through (grounded : h.Grounded) {via : String} {names : List String}
    (path : h.Extends name via) (ascent : h.Ascent via names) :
    ∃ lower, h.Ascent name (lower ++ names) := by
  obtain ⟨all, walk⟩ := grounded name
  obtain ⟨lower, upper, rfl, rest⟩ := walk.of_mem (walk.mem_iff.mpr path)
  rw [ascent.unique rest]
  exact ⟨lower, walk⟩

/-- What a class inherits when a class above it declares something: it is declared below that one,
or by it, but no further up. -/
theorem Ascent.inherits_between {lower before after : List String} {nearest : String} {a : α}
    (ascent : h.Ascent name (lower ++ (before ++ nearest :: after)))
    (declares : declared? nearest = some a) (missing : ∀ other ∈ before, declared? other = none) :
    ∃ via b, h.Inherits declared? name b ∧ declared? via = some b ∧ via ∈ lower ++ [nearest] ∧
      via ∉ after := by
  have once := List.nodup_append.mp ascent.nodup
  cases found : lower.findSome? declared? with
  | none =>
      have passed := List.findSome?_eq_none_iff.mp found
      refine ⟨nearest, a, ⟨lower ++ before, nearest, after, ?_, declares, ?_⟩, declares, ?_, ?_⟩
      · rwa [List.append_assoc]
      · exact List.forall_mem_append.mpr ⟨passed, missing⟩
      · exact List.mem_append_right _ (List.mem_singleton.mpr rfl)
      · exact (List.nodup_cons.mp (List.nodup_append.mp once.2.1).2.1).1
  | some b =>
      obtain ⟨first, via, rest, rfl, declared, passed⟩ := List.findSome?_eq_some_iff.mp found
      have here : via ∈ first ++ via :: rest := List.mem_append_right _ (.head _)
      refine ⟨via, b, ⟨first, via, rest ++ (before ++ nearest :: after), ?_, declared, passed⟩,
        declared, List.mem_append_left _ here, fun later => ?_⟩
      · rwa [List.append_assoc, List.cons_append] at ascent
      · have above : via ∈ before ++ nearest :: after := List.mem_append_right _ (.tail _ later)
        exact once.2.2 via here via above rfl

end Hierarchy

end TokenDispatch
