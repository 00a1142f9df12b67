import TokenDispatch.Proofs.Subtyping

/-!
Subtyping on hierarchies as definitions make them: any names may be defined, in any order and more
than once, and a superclass or an interface need not be defined at all. Subtyping is reachability,
so it is a preorder while nobody defines the root class anew, and what comes under a new name makes
no difference to the names that were there before.
-/

namespace TokenDispatch

inductive Definition where
  | ofClass (name : String) (superclass : Option String) (interfaces : List String)
  | ofInterface (name : String) (parents : List String)

def Definition.name : Definition → String
  | ofClass name _ _ => name
  | ofInterface name _ => name

namespace Hierarchy

variable {h : Hierarchy}

def make (h : Hierarchy) : Definition → Hierarchy
  | .ofClass name superclass interfaces => h.defineClass name superclass interfaces
  | .ofInterface name parents => h.defineInterface name parents

/-- Makes definitions in their order. -/
def makeAll (h : Hierarchy) (definitions : List Definition) : Hierarchy :=
  definitions.foldl make h

theorem makeAll_append (first second : List Definition) :
    h.makeAll (first ++ second) = (h.makeAll first).makeAll second :=
  List.foldl_append

theorem find?_make (d : Definition) (name : String) (other : d.name ≠ name) :
    (h.make d).find? name = h.find? name := by
  cases d with
  | ofClass _ _ _ | ofInterface _ _ => exact List.find?_cons_of_neg (other ∘ eq_of_beq)

theorem find?_makeAll (definitions : List Definition) (name : String)
    (others : ∀ d ∈ definitions, d.name ≠ name) :
    (h.makeAll definitions).find? name = h.find? name := by
  induction definitions generalizing h with
  | nil => rfl
  | cons d rest ih =>
      obtain ⟨other, others⟩ := List.forall_mem_cons.mp others
      exact (ih others).trans (find?_make d name other)

/-- Definitions of other names leave the edges from a name as they are. -/
theorem hasParent_makeAll_iff (definitions : List Definition) (name parent : String)
    (others : ∀ d ∈ definitions, d.name ≠ name) :
    (h.makeAll definitions).HasParent name parent ↔ h.HasParent name parent := by
  rw [HasParent, HasParent, parents, parents, find?_makeAll definitions name others]

variable (h) in
/-- A name that is defined, or that an edge leads to. -/
def Mentions (name : String) : Prop := (∃ entry, h.find? name = some entry) ∨
  ∃ child, h.HasParent child name

/-- A name is not mentioned if it does not occur in any definition, hidden ones included. -/
theorem not_mentions_of_entries (name : String)
    (absent : ∀ entry ∈ h.entries, entry.name ≠ name ∧ name ∉ entry.parents) :
    ¬ h.Mentions name := by
  rintro (⟨entry, found⟩ | ⟨child, edge⟩)
  · exact (absent entry (List.mem_of_find?_eq_some found)).1 (by simpa using List.find?_some found)
  · rw [HasParent, parents] at edge
    cases found : h.find? child with
    | none =>
        rw [found] at edge
        cases edge
    | some entry =>
        rw [found] at edge
        exact (absent entry (List.mem_of_find?_eq_some found)).2 edge

section

variable {more : List Definition} (fresh : ∀ d ∈ more, ¬ h.Mentions d.name) {sub : String}
  (old : ∀ d ∈ more, d.name ≠ sub)

include fresh old

/-- A path from an old name leads to old names only. -/
theorem old_of_below (name : String) (path : h.Below sub name) : ∀ d ∈ more, d.name ≠ name := by
  cases path with
  | refl => exact old
  | tail _ edge =>
      intro d mem same
      exact fresh d mem (.inr ⟨_, same ▸ edge⟩)

theorem below_makeAll_iff (sup : String) : (h.makeAll more).Below sub sup ↔ h.Below sub sup := by
  constructor
  · intro path
    induction path with
    | refl => exact .refl
    | tail _ edge ih =>
        exact ih.tail ((hasParent_makeAll_iff more _ _ (old_of_below fresh old _ ih)).mp edge)
  · intro path
    induction path with
    | refl => exact .refl
    | tail before edge ih =>
        exact ih.tail ((hasParent_makeAll_iff more _ _ (old_of_below fresh old _ before)).mpr edge)

theorem isSubtype_makeAll (sup : String) :
    (h.makeAll more).isSubtype sub sup = h.isSubtype sub sup := by
  rw [Bool.eq_iff_iff, isSubtype_iff, isSubtype_iff, below_makeAll_iff fresh old]

end

theorem rooted_makeAll (definitions : List Definition)
    (others : ∀ d ∈ definitions, d.name ≠ ClassName.object) :
    (builtin.makeAll definitions).Rooted :=
  find?_makeAll definitions ClassName.object others

/-- Whatever was defined, a name is below itself, below the root class, and below all names that a
way along superclasses and interfaces leads to, and below no others. So while the root class was not
defined anew this is a preorder with the root class on top; and definitions of names that were not
mentioned before change no answer about an old name. -/
theorem isSubtype_preorder (definitions : List Definition) :
    (∀ sub sup, (builtin.makeAll definitions).isSubtype sub sup = true ↔
      sup = sub ∨ sup = ClassName.object ∨
        Relation.TransGen (builtin.makeAll definitions).HasParent sub sup) ∧
    ((∀ d ∈ definitions, d.name ≠ ClassName.object) →
      (∀ name, (builtin.makeAll definitions).isSubtype name name = true) ∧
      (∀ sub via sup, (builtin.makeAll definitions).isSubtype sub via = true →
        (builtin.makeAll definitions).isSubtype via sup = true →
        (builtin.makeAll definitions).isSubtype sub sup = true) ∧
      ∀ name, (builtin.makeAll definitions).isSubtype name ClassName.object = true) ∧
    ∀ more : List Definition,
      (∀ d ∈ more, ¬ (builtin.makeAll definitions).Mentions d.name) →
      ∀ sub, (∀ d ∈ more, d.name ≠ sub) → ∀ sup,
        (builtin.makeAll (definitions ++ more)).isSubtype sub sup =
          (builtin.makeAll definitions).isSubtype sub sup := by
  refine ⟨fun sub sup => ?_, fun others => ?_, fun more fresh sub old sup => ?_⟩
  · exact isSubtype_iff.trans
      ((or_congr_right Relation.reflTransGen_iff_eq_or_transGen).trans or_left_comm)
  · have rooted := rooted_makeAll definitions others
    exact ⟨fun _ => isSubtype_iff.mpr (.inr .refl), rooted.isSubtype_trans,
      fun _ => isSubtype_iff.mpr (.inl rfl)⟩
  · rw [makeAll_append]
    exact isSubtype_makeAll fresh old sup

/-! Two classes that extend each other. -/

/-- A class is defined twice, two classes extend each other, and one interface is not defined. -/
def tangled : List Definition :=
  [.ofInterface "Shape" [], .ofClass "Disk" (some "Ring") ["Solid"],
    .ofClass "Ring" (some "Disk") ["Shape"], .ofClass "Disk" (some "Ring") []]

def later : List Definition := [.ofClass "Ball" (some "Globe") ["Disk"], .ofInterface "Globe" []]

theorem isSubtype_preorder_of_tangled :
    (∀ d ∈ tangled, d.name ≠ ClassName.object) ∧
    (builtin.makeAll tangled).isSubtype "Disk" "Shape" = true ∧
    (builtin.makeAll tangled).isSubtype "Disk" "Disk" = true ∧
    (∀ d ∈ later, ¬ (builtin.makeAll tangled).Mentions d.name) ∧
    (builtin.makeAll (tangled ++ later)).isSubtype "Disk" "Shape" =
      (builtin.makeAll tangled).isSubtype "Disk" "Shape" := by
  obtain ⟨reachable, order, old⟩ := isSubtype_preorder tangled
  have others : ∀ d ∈ tangled, d.name ≠ ClassName.object := by decide
  obtain ⟨refl, trans, -⟩ := order others
  have first := (reachable "Disk" "Ring").mpr (.inr (.inr (.single (by decide))))
  have second := (reachable "Ring" "Shape").mpr (.inr (.inr (.single (by decide))))
  have fresh : ∀ d ∈ later, ¬ (builtin.makeAll tangled).Mentions d.name := by
    intro d mem
    refine not_mentions_of_entries d.name ?_
    revert d
    decide
  have extended := old later fresh "Disk" (by decide) "Shape"
  exact ⟨others, trans _ _ _ first second, refl _, fresh, extended⟩

end Hierarchy

end TokenDispatch
