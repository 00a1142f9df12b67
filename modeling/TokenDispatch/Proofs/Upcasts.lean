import TokenDispatch.Proofs.Casts
import TokenDispatch.Proofs.SubtypeOrder

/-!
Casts to wider types. A type is wider than another by its class, by being the root class, or by its
elements, at any depth. While the root class was not defined anew, what passes as an instance of a
type passes as an instance of every wider type.
-/

namespace TokenDispatch

namespace Hierarchy

variable {h : Hierarchy}

/-- From a type to one that is the same or wider: a class above it, the root class above all
references, and an array type above the arrays of narrower elements. -/
inductive Widens (h : Hierarchy) : Ty → Ty → Prop
  | refl (ty : Ty) : Widens h ty ty
  | named {sub sup : String} (below : h.isSubtype sub sup = true) :
      Widens h (.named sub) (.named sup)
  | object {ty : Ty} (reference : ty.isReference = true) : Widens h ty .object
  | array {narrow wide : Ty} (elements : Widens h narrow wide) :
      Widens h (.array narrow) (.array wide)

namespace Widens

variable {narrow wide : Ty}

theorem isReference (widens : h.Widens narrow wide) (reference : narrow.isReference = true) :
    wide.isReference = true := by
  cases widens with
  | refl _ => exact reference
  | named _ | object _ | array _ => rfl

theorem eq_of_prim {kind : Prim} (widens : h.Widens (.prim kind) wide) : wide = .prim kind := by
  cases widens with
  | refl _ => rfl
  | object reference => cases reference

theorem plain (widens : h.Widens narrow wide) (plain : narrow.prim? = none) :
    wide.prim? = none := by
  cases widens with
  | refl _ => exact plain
  | named _ | object _ | array _ => rfl

/-- The elements are cast by the same rule, so the induction is on how the type was widened. Arrays
of primitives are as they are: no other array type is wider. -/
theorem isInstance (rooted : h.Rooted) (widens : h.Widens narrow wide) (v : Value)
    (passes : h.isInstance narrow v = true) : h.isInstance wide v = true := by
  induction widens generalizing v with
  | refl _ => exact passes
  | @named sub sup below =>
      rw [isInstance_named_iff] at passes ⊢
      obtain null | ⟨className, class_eq, first⟩ := passes
      · exact .inl null
      · exact .inr ⟨className, class_eq, rooted.isSubtype_trans className sub sup first below⟩
  | object _ => exact h.isInstance_object v
  | @array narrow wide elements ih =>
      cases prim_eq : narrow.prim? with
      | some kind =>
          cases narrow with
          | prim _ => rwa [elements.eq_of_prim]
          | void | named _ | array _ => cases prim_eq
      | none =>
          rw [h.isInstance_array_iff narrow prim_eq] at passes
          rw [h.isInstance_array_iff wide (elements.plain prim_eq)]
          obtain null | ⟨items, rfl, all⟩ := passes
          · exact .inl null
          · exact .inr ⟨items, rfl, fun item mem => ih item (all item mem)⟩

end Widens

/-- While the root class was not defined anew, a value that passes a cast to a reference type passes
the casts to all wider types. On any hierarchy an array passes as an array of references exactly if
each of its elements passes; that arrays of the root class are not looked into makes no difference. -/
theorem checkCast_widens (h : Hierarchy) :
    (h.Rooted → ∀ (v : Value) (narrow wide : Ty), narrow.isReference = true →
      h.Widens narrow wide → h.checkCast v narrow = .ok () → h.checkCast v wide = .ok ()) ∧
    ∀ (element : Ty) (v : Value), element.prim? = none →
      (h.isInstance (.array element) v = true ↔
        v = .null ∨ ∃ items, v = .array items ∧
          ∀ item ∈ items, h.isInstance element item = true) := by
  refine ⟨fun rooted v narrow wide reference widens ok => ?_,
    fun element v plain => h.isInstance_array_iff element plain v⟩
  obtain ⟨-, passes⟩ := (h.checkCast_eq_ok_iff v narrow).mp ok
  exact (h.checkCast_eq_ok_iff v wide).mpr
    ⟨widens.isReference reference, widens.isInstance rooted v passes⟩

/-! Rows of disks, where two classes extend each other. -/

def disks : Value := .array [.array [.object 0 "Disk", .null], .null]

theorem checkCast_widens_of_tangled :
    (builtin.makeAll tangled).Rooted ∧
    (builtin.makeAll tangled).checkCast disks (.array (.array (.named "Disk"))) = .ok () ∧
    (builtin.makeAll tangled).Widens (.array (.array (.named "Disk")))
      (.array (.array (.named "Shape"))) ∧
    (builtin.makeAll tangled).checkCast disks (.array (.array (.named "Shape"))) = .ok () ∧
    (builtin.makeAll tangled).checkCast disks (.array .object) = .ok () := by
  have rooted := rooted_makeAll tangled (by decide)
  obtain ⟨casts, elementwise⟩ := checkCast_widens (builtin.makeAll tangled)
  have disk : (builtin.makeAll tangled).isInstance (.named "Disk") (.object 0 "Disk") = true :=
    (isInstance_named_iff _ _ _).mpr (.inr ⟨_, rfl, isSubtype_iff.mpr (.inr .refl)⟩)
  have narrow : (builtin.makeAll tangled).checkCast disks (.array (.array (.named "Disk"))) =
      .ok () := by
    refine (checkCast_eq_ok_iff _ _ _).mpr ⟨rfl, (elementwise _ _ rfl).mpr (.inr ⟨_, rfl, ?_⟩)⟩
    refine List.forall_mem_cons.mpr ⟨(elementwise _ _ rfl).mpr (.inr ⟨_, rfl, ?_⟩), ?_⟩
    · exact List.forall_mem_cons.mpr ⟨disk, List.forall_mem_singleton.mpr rfl⟩
    · exact List.forall_mem_singleton.mpr rfl
  have ring : (builtin.makeAll tangled).HasParent "Disk" "Ring" := by decide
  have shape : (builtin.makeAll tangled).HasParent "Ring" "Shape" := by decide
  have below : (builtin.makeAll tangled).isSubtype "Disk" "Shape" = true :=
    isSubtype_iff.mpr (.inr (.head ring (.single shape)))
  have widens := Widens.array (Widens.array (Widens.named below))
  exact ⟨rooted, narrow, widens, casts rooted _ _ _ rfl widens narrow,
    casts rooted _ _ _ rfl (.array (.object rfl)) narrow⟩

end Hierarchy

end TokenDispatch
