import TokenDispatch.Coercion

/-!
What a cast looks at. A value passes by its class, and an array by its elements: each has to be an
instance of the element type, or to stand for a primitive. What may stand for a primitive is what
can be taken out of its box as one, whatever classes are defined.
-/

namespace TokenDispatch

theorem Prim.wrapper_injective (k l : Prim) (same : k.wrapper = l.wrapper) : k = l := by
  cases k <;> cases l <;> first | rfl | exact absurd same (by decide)

/-! What can be taken out of a box. -/

theorem Number.convert?_kind (n : Number) (target : Prim) (x : Primitive)
    (h : n.convert? target = some x) : x.kind = target := by
  cases n <;> cases target <;> cases h <;> rfl

theorem Primitive.convert?_kind (p : Primitive) (target : Prim) (x : Primitive)
    (h : p.convert? target = some x) : x.kind = target := by
  unfold convert? at h
  split at h
  · cases h
    rfl
  · cases h
    rfl
  · obtain ⟨n, -, converted⟩ := Option.bind_eq_some_iff.mp h
    exact n.convert?_kind target x converted

theorem Value.unbox_boxed (p : Primitive) (target : Prim) :
    (boxed p).unbox target = match p.convert? target with
      | some x => .ok x
      | none => .error (.invalidCast p.kind.wrapper target.name) :=
  rfl

theorem Value.unbox_kind (v : Value) (target : Prim) (x : Primitive) (h : v.unbox target = .ok x) :
    x.kind = target := by
  cases v with
  | boxed p =>
      rw [unbox_boxed] at h
      cases converted : p.convert? target with
      | some y =>
          rw [converted] at h
          cases h
          exact p.convert?_kind target x converted
      | none =>
          rw [converted] at h
          cases h
  | null | string _ | array _ | object _ _ => cases h

theorem Number.convert?_isSome (n : Number) (target : Prim) :
    (n.convert? target).isSome = target.isNumeric := by
  cases n <;> cases target <;> rfl

theorem Primitive.number?_isSome (p : Primitive) : p.number?.isSome = p.kind.isNumeric := by
  cases p <;> rfl

/-- A primitive becomes one of its own kind, and any number becomes any kind of number. -/
theorem Primitive.convert?_isSome_iff (p : Primitive) (target : Prim) :
    (p.convert? target).isSome = true ↔
      p.kind = target ∨ target.isNumeric = true ∧ p.kind.isNumeric = true := by
  have by_number : (p.number?.bind (·.convert? target)).isSome =
      (target.isNumeric && p.kind.isNumeric) := by
    rw [← p.number?_isSome]
    cases p.number? with
    | none => simp
    | some n => simp [n.convert?_isSome target]
  unfold convert?
  split
  · simp [kind]
  · simp [kind]
  · rename_i not_boolean not_char
    rw [by_number, Bool.and_eq_true]
    refine ⟨.inr, fun fits => fits.elim (fun same => ?_) id⟩
    subst same
    cases p with
    | boolean b => exact absurd rfl (not_boolean b rfl)
    | char c => exact absurd rfl (not_char c rfl)
    | _ => exact ⟨rfl, rfl⟩

theorem Value.unbox_isOk_iff (v : Value) (target : Prim) :
    (∃ x, v.unbox target = .ok x) ↔ ∃ p, v = .boxed p ∧
      (p.kind = target ∨ target.isNumeric = true ∧ p.kind.isNumeric = true) := by
  cases v with
  | boxed p =>
      rw [unbox_boxed]
      simp only [boxed.injEq, exists_eq_left', ← p.convert?_isSome_iff target]
      cases p.convert? target <;> simp
  | null | string _ | array _ | object _ _ => simp [unbox, boxed?]

namespace Hierarchy

variable (h : Hierarchy)

theorem checkCast_eq_ok_iff (v : Value) (target : Ty) :
    h.checkCast v target = .ok () ↔ target.isReference = true ∧ h.isInstance target v = true := by
  rw [checkCast]
  cases target.isReference with
  | false => simp
  | true => cases h.isInstance target v <;> simp

theorem isInstance_named_iff (name : String) (v : Value) :
    h.isInstance (.named name) v = true ↔
      v = .null ∨ ∃ className, v.class? = some className ∧ h.isSubtype className name = true := by
  cases v <;> simp [isInstance, Value.isNull, Value.class?]

theorem isInstance_object (v : Value) : h.isInstance .object v = true := by
  refine (h.isInstance_named_iff ClassName.object v).mpr ?_
  cases class_eq : v.class? with
  | none =>
      cases v with
      | null => exact .inl rfl
      | _ => cases class_eq
  | some className => exact .inr ⟨className, rfl, by simp [isSubtype]⟩

/-! Elements that are references. -/

/-- What is no array passes as null only. -/
theorem isInstance_array_cases (element : Ty) (v : Value) :
    h.isInstance (.array element) v = true ↔
      v = .null ∨ ∃ items, v = .array items ∧ h.isInstance (.array element) (.array items) = true := by
  cases v with
  | array items => simp
  | null | boxed _ | string _ | object _ _ =>
      cases element <;> simp [isInstance, Value.isNull, Value.array?]

theorem isInstance_array_of_plain (element : Ty) (plain : element.prim? = none)
    (items : List Value) : h.isInstance (.array element) (.array items) =
      (element.isObject || items.all (h.isInstance element)) := by
  cases element with
  | prim _ => cases plain
  | void | named _ | array _ => simp [isInstance, Value.isNull, Value.array?]

/-- The root class needs no look at the elements, since all of them are instances of it. -/
theorem isInstance_array_iff (element : Ty) (plain : element.prim? = none) (v : Value) :
    h.isInstance (.array element) v = true ↔
      v = .null ∨ ∃ items, v = .array items ∧ ∀ item ∈ items, h.isInstance element item = true := by
  rw [isInstance_array_cases]
  simp only [h.isInstance_array_of_plain element plain, Bool.or_eq_true, List.all_eq_true]
  have shortcut (items : List Value) (root : element.isObject = true) :
      ∀ item ∈ items, h.isInstance element item = true := by
    rw [eq_of_beq root]
    exact fun item _ => h.isInstance_object item
  simp only [or_iff_right_of_imp (shortcut _)]

/-! Elements that are primitives. -/

theorem admits_iff (kind : Prim) (item : Value) :
    admits kind item = true ↔ ∃ x, item.unbox kind = .ok x := by
  rw [item.unbox_isOk_iff kind]
  cases item with
  | boxed p =>
      have own_class : p.kind.wrapper = kind.wrapper ↔ p.kind = kind :=
        ⟨Prim.wrapper_injective _ _, congrArg Prim.wrapper⟩
      simp [admits, Value.boxed?, Value.class?, own_class]
  | null | string _ | array _ | object _ _ => simp [admits, Value.boxed?]

/-- A cast to an array of primitives and taking the elements out of their boxes agree, whatever
classes are defined under the names of the boxes: the array passes exactly if each element can be
taken out. So neither takes what is in no box, an object of a class with such a name included. -/
theorem isInstance_array_prim (kind : Prim) :
    (∀ v, h.isInstance (.array (.prim kind)) v = true ↔
      v = .null ∨ ∃ items, v = .array items ∧ ∀ item ∈ items, ∃ x, item.unbox kind = .ok x) ∧
    ∀ item : Value, (∀ p, item ≠ .boxed p) →
      (∀ x, item.unbox kind ≠ .ok x) ∧
        ∀ items, item ∈ items → h.isInstance (.array (.prim kind)) (.array items) = false := by
  have elementwise (v : Value) : h.isInstance (.array (.prim kind)) v = true ↔
      v = .null ∨ ∃ items, v = .array items ∧ ∀ item ∈ items, ∃ x, item.unbox kind = .ok x := by
    rw [isInstance_array_cases]
    simp [isInstance, Value.isNull, Value.array?, admits_iff]
  refine ⟨elementwise, fun item unboxed => ?_⟩
  have refused (x : Primitive) : item.unbox kind ≠ .ok x := by
    intro taken
    obtain ⟨p, boxed, -⟩ := (item.unbox_isOk_iff kind).mp ⟨x, taken⟩
    exact unboxed p boxed
  refine ⟨refused, fun items mem => Bool.eq_false_iff.mpr fun passes => ?_⟩
  obtain ⟨⟨⟩⟩ | ⟨_, ⟨⟩, taken⟩ := (elementwise _).mp passes
  obtain ⟨x, taken⟩ := taken item mem
  exact refused x taken

/-! An object of the class of boxed integers, which is defined anew. -/

def boxesAnew : Hierarchy := builtin.defineClass Prim.int.wrapper none [ClassName.number]

def integerObject : Value := .object 0 Prim.int.wrapper

theorem isInstance_array_prim_of_object :
    boxesAnew.isInstance (.array (.prim .int)) (.array [.boxed (.long 7), .boxed (.byte 7)]) = true ∧
      (∀ p, integerObject ≠ .boxed p) ∧ (∀ x, integerObject.unbox .int ≠ .ok x) ∧
      boxesAnew.isInstance (.array (.prim .int)) (.array [.boxed (.long 7), integerObject]) =
        false := by
  obtain ⟨elementwise, refused⟩ := boxesAnew.isInstance_array_prim .int
  have unboxed (p : Primitive) : integerObject ≠ .boxed p := by simp [integerObject]
  obtain ⟨not_taken, not_held⟩ := refused integerObject unboxed
  refine ⟨(elementwise _).mpr (.inr ⟨_, rfl, ?_⟩), unboxed, not_taken, not_held _ (.tail _ (.head _))⟩
  exact List.forall_mem_cons.mpr ⟨⟨_, rfl⟩, List.forall_mem_singleton.mpr ⟨_, rfl⟩⟩

end Hierarchy

end TokenDispatch
