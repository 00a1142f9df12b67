import Mathlib.Logic.Relation
import TokenDispatch.Hierarchy

/-!
What the searches of a hierarchy find. The search over all parents finds exactly the names that a
path leads to, on any hierarchy, and the walk over superclasses finds some of these. While the root
class has no parents of its own, being a subtype is transitive.
-/

namespace TokenDispatch

namespace Hierarchy

variable (h : Hierarchy)

/-- One edge of the hierarchy, to a superclass or an interface. -/
def HasParent (name parent : String) : Prop := parent ∈ h.parents name

instance (name parent : String) : Decidable (h.HasParent name parent) :=
  inferInstanceAs (Decidable (_ ∈ _))

/-- A path of any length, up the hierarchy. -/
abbrev Below : String → String → Prop := Relation.ReflTransGen h.HasParent

variable {h}

theorem below_of_mem_reach (seen queue : List String) (sup : String)
    (found : sup ∈ h.reach seen queue) : ∃ name ∈ queue, h.Below name sup := by
  induction seen, queue using reach.induct h with
  | case1 seen =>
      rw [reach] at found
      cases found
  | case2 seen name queue met ih =>
      rw [reach, if_pos met] at found
      obtain ⟨start, mem, path⟩ := ih found
      exact ⟨start, .tail _ mem, path⟩
  | case3 seen name queue new ih =>
      rw [reach, if_neg new] at found
      obtain rfl | later := List.mem_cons.mp found
      · exact ⟨sup, .head _, .refl⟩
      · obtain ⟨start, mem, path⟩ := ih later
        cases List.mem_append.mp mem with
        | inl waiting => exact ⟨start, .tail _ waiting, path⟩
        | inr parent => exact ⟨name, .head _, .head parent path⟩

/-- Nothing is lost: what waits is found unless it was met before, and so are the parents of all
that is found. -/
theorem reach_closed (seen queue : List String) :
    (∀ name ∈ queue, name ∈ seen ∨ name ∈ h.reach seen queue) ∧
      ∀ name ∈ h.reach seen queue, ∀ parent ∈ h.parents name,
        parent ∈ seen ∨ parent ∈ h.reach seen queue := by
  induction seen, queue using reach.induct h with
  | case1 seen =>
      rw [reach]
      exact ⟨nofun, nofun⟩
  | case2 seen name queue met ih =>
      rw [reach, if_pos met]
      obtain ⟨waiting, closed⟩ := ih
      refine ⟨fun other mem => ?_, closed⟩
      obtain rfl | mem := List.mem_cons.mp mem
      · exact .inl (List.contains_iff_mem.mp met)
      · exact waiting other mem
  | case3 seen name queue new ih =>
      rw [reach, if_neg new]
      obtain ⟨waiting, closed⟩ := ih
      -- The name itself has moved from those that wait to those that are found.
      have move (other : String)
          (h_other : other ∈ name :: seen ∨
            other ∈ h.reach (name :: seen) (queue ++ h.parents name)) :
          other ∈ seen ∨ other ∈ name :: h.reach (name :: seen) (queue ++ h.parents name) := by
        cases h_other with
        | inl mem =>
            obtain rfl | mem := List.mem_cons.mp mem
            · exact .inr (.head _)
            · exact .inl mem
        | inr mem => exact .inr (.tail _ mem)
      refine ⟨fun other mem => ?_, fun other mem parent edge => ?_⟩
      · obtain rfl | mem := List.mem_cons.mp mem
        · exact .inr (.head _)
        · exact move other (waiting other (List.mem_append_left _ mem))
      · obtain rfl | mem := List.mem_cons.mp mem
        · exact move parent (waiting parent (List.mem_append_right _ edge))
        · exact move parent (closed other mem parent edge)

theorem mem_reachable_iff (name sup : String) : sup ∈ h.reachable name ↔ h.Below name sup := by
  constructor
  · intro found
    obtain ⟨start, mem, path⟩ := below_of_mem_reach [] [name] sup found
    cases List.mem_singleton.mp mem
    exact path
  · intro path
    obtain ⟨waiting, closed⟩ := h.reach_closed [] [name]
    induction path with
    | refl => exact (waiting name (.head _)).resolve_left nofun
    | tail _ edge ih => exact (closed _ ih _ edge).resolve_left nofun

/-- A climb comes to a name only along the parents of names that waited. -/
theorem below_of_climb (sup : String) (seen stack : List String)
    (found : h.climb sup seen stack = true) : ∃ name ∈ stack, h.Below name sup := by
  induction seen, stack using climb.induct h with
  | case1 seen =>
      rw [climb] at found
      cases found
  | case2 seen name stack met ih =>
      rw [climb, if_pos met] at found
      obtain ⟨start, mem, path⟩ := ih found
      exact ⟨start, .tail _ mem, path⟩
  | case3 seen name stack new ih =>
      rw [climb, if_neg new, Bool.or_eq_true, beq_iff_eq] at found
      obtain rfl | later := found
      · exact ⟨name, .head _, .refl⟩
      · obtain ⟨start, mem, path⟩ := ih later
        cases List.mem_append.mp mem with
        | inl parent => exact ⟨name, .head _, .head (List.mem_reverse.mp parent) path⟩
        | inr waiting => exact ⟨start, .tail _ waiting, path⟩

/-- The names that wait part those met before from all others: whatever is one edge above a name
met before was met as well, or it waits. -/
def Frontier (h : Hierarchy) (seen waiting : List String) : Prop :=
  ∀ name ∈ seen, ∀ parent, h.HasParent name parent → parent ∈ seen ∨ parent ∈ waiting

/-- Once a name is met, its parents have to wait with the others. -/
theorem Frontier.meet {seen stack waiting : List String} {name : String}
    (frontier : h.Frontier seen (name :: stack)) (kept : ∀ other ∈ stack, other ∈ waiting)
    (added : ∀ parent, h.HasParent name parent → parent ∈ waiting) :
    h.Frontier (name :: seen) waiting := by
  intro other mem parent edge
  obtain rfl | before := List.mem_cons.mp mem
  · exact .inr (added parent edge)
  · obtain met | waits := frontier other before parent edge
    · exact .inl (.tail _ met)
    · obtain rfl | later := List.mem_cons.mp waits
      · exact .inl (.head _)
      · exact .inr (kept parent later)

theorem Frontier.skip {seen stack : List String} {name : String}
    (frontier : h.Frontier seen (name :: stack)) (met : name ∈ seen) : h.Frontier seen stack := by
  intro other mem parent edge
  obtain before | waits := frontier other mem parent edge
  · exact .inl before
  · obtain rfl | later := List.mem_cons.mp waits
    · exact .inl met
    · exact .inr later

/-- Nothing leads out of the names met before once no name waits. -/
theorem Frontier.mem_of_below {seen : List String} (frontier : h.Frontier seen [])
    {name sup : String} (mem : name ∈ seen) (path : h.Below name sup) : sup ∈ seen := by
  induction path with
  | refl => exact mem
  | tail _ edge ih => exact (frontier _ ih _ edge).resolve_right nofun

/-- A climb that ends without success has left nothing out. -/
theorem not_below_of_climb (sup : String) (seen stack : List String)
    (missed : h.climb sup seen stack = false) (unmet : sup ∉ seen)
    (frontier : h.Frontier seen stack) :
    ∀ name, name ∈ seen ∨ name ∈ stack → ¬ h.Below name sup := by
  induction seen, stack using climb.induct h with
  | case1 seen =>
      intro name mem path
      exact unmet (frontier.mem_of_below (mem.resolve_right nofun) path)
  | case2 seen name stack met ih =>
      rw [climb, if_pos met] at missed
      have mem_name := List.contains_iff_mem.mp met
      intro other mem
      refine ih missed unmet (frontier.skip mem_name) other (mem.elim .inl fun waits => ?_)
      obtain rfl | later := List.mem_cons.mp waits
      · exact .inl mem_name
      · exact .inr later
  | case3 seen name stack new ih =>
      rw [climb, if_neg new, Bool.or_eq_false_iff, beq_eq_false_iff_ne] at missed
      obtain ⟨other_name, rest⟩ := missed
      have unmet' : sup ∉ name :: seen := List.not_mem_cons_of_ne_of_not_mem other_name.symm unmet
      intro other mem
      have frontier' := frontier.meet (fun _ => List.mem_append_right (h.parents name).reverse)
        fun _ edge => List.mem_append_left stack (List.mem_reverse.mpr edge)
      refine ih rest unmet' frontier' other ?_
      obtain before | waits := mem
      · exact .inl (.tail _ before)
      · obtain rfl | later := List.mem_cons.mp waits
        · exact .inl (.head _)
        · exact .inr (List.mem_append_right _ later)

theorem climb_iff (sub sup : String) : h.climb sup [] [sub] = true ↔ h.Below sub sup := by
  constructor
  · intro found
    obtain ⟨start, mem, path⟩ := below_of_climb sup [] [sub] found
    cases List.mem_singleton.mp mem
    exact path
  · intro path
    cases missed : h.climb sup [] [sub] with
    | true => rfl
    | false =>
        exact absurd path (not_below_of_climb sup [] [sub] missed nofun nofun sub (.inr (.head _)))

theorem isSubtype_iff {sub sup : String} :
    h.isSubtype sub sup = true ↔ sup = ClassName.object ∨ h.Below sub sup := by
  simp only [isSubtype, Bool.or_eq_true, beq_iff_eq, climb_iff]
  constructor
  · rintro ((rfl | root) | path)
    · exact .inr .refl
    · exact .inl root
    · exact .inr path
  · rintro (root | path)
    · exact .inl (.inr root)
    · exact .inr path

theorem hasParent_of_superclass? (name parent : String) (found : h.superclass? name = some parent) :
    h.HasParent name parent := by
  obtain ⟨entry, defined, superclass⟩ := Option.bind_eq_some_iff.mp found
  simp [HasParent, parents, defined, ClassEntry.parents, superclass]

theorem below_of_mem_walk (name sup : String) (limit : Nat) (mem : sup ∈ h.walk name limit) :
    h.Below name sup := by
  induction limit generalizing name with
  | zero => cases mem
  | succ limit ih =>
      rw [walk] at mem
      obtain rfl | mem := List.mem_cons.mp mem
      · exact .refl
      · cases superclass : h.superclass? name with
        | none =>
            rw [superclass] at mem
            cases mem
        | some parent =>
            rw [superclass] at mem
            exact .head (hasParent_of_superclass? name parent superclass) (ih parent mem)

theorem below_of_mem_chain (name sup : String) (mem : sup ∈ h.chain name) : h.Below name sup :=
  below_of_mem_walk name sup _ mem

variable (h)

/-- Whether the root class is still the one that every hierarchy starts with. -/
def Rooted : Prop := h.find? ClassName.object = Hierarchy.builtin.find? ClassName.object

variable {h}

theorem Rooted.parents_eq (rooted : h.Rooted) : h.parents ClassName.object = [] := by
  have root : Hierarchy.builtin.find? ClassName.object =
      some ⟨ClassName.object, none, [], false⟩ := by decide
  rw [parents, rooted.trans root]
  rfl

theorem Rooted.eq_of_below (rooted : h.Rooted) (sup : String)
    (path : h.Below ClassName.object sup) : sup = ClassName.object := by
  induction path with
  | refl => rfl
  | tail _ edge ih =>
      rw [ih, HasParent, rooted.parents_eq] at edge
      cases edge

theorem Rooted.isSubtype_of_below (rooted : h.Rooted) (sub via sup : String)
    (first : h.isSubtype sub via = true) (path : h.Below via sup) : h.isSubtype sub sup = true := by
  rw [isSubtype_iff] at first ⊢
  obtain rfl | before := first
  · exact .inl (rooted.eq_of_below sup path)
  · exact .inr (before.trans path)

theorem Rooted.isSubtype_trans (rooted : h.Rooted) (sub via sup : String)
    (first : h.isSubtype sub via = true) (second : h.isSubtype via sup = true) :
    h.isSubtype sub sup = true := by
  cases isSubtype_iff.mp second with
  | inl root => exact isSubtype_iff.mpr (.inl root)
  | inr path => exact rooted.isSubtype_of_below sub via sup first path

end Hierarchy

end TokenDispatch
