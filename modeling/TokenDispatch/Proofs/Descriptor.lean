import TokenDispatch.Ty

/-!
What a descriptor tells about a signature. The text always shows whether a result is a reference,
which primitive it is, or that there is none; and it shows the whole signature when no class name in
it contains the sign that ends class names.
-/

namespace TokenDispatch

namespace Ty

/-- The descriptor as characters. -/
def chars : Ty → List Char
  | void => ['V']
  | prim kind => [kind.code]
  | named name => 'L' :: (name.toList ++ [';'])
  | array element => '[' :: element.chars

theorem toList_descriptor (ty : Ty) : ty.descriptor.toList = ty.chars := by
  induction ty with
  | void => rfl
  | prim kind => exact String.toList_singleton kind.code
  | named name => simp [descriptor, chars]
  | array element ih => simp [descriptor, chars, ih]

/-- A type with every reference type taken for one. -/
def erased : Ty → Ty
  | void => void
  | prim kind => prim kind
  | named _ | array _ => object

/-- Whether class names end where their descriptor says so: none contains the sign for the end. -/
def Delimited : Ty → Prop
  | named name => ';' ∉ name.toList
  | array element => element.Delimited
  | void | prim _ => True

instance decidableDelimited : (ty : Ty) → Decidable ty.Delimited
  | named name => inferInstanceAs (Decidable (';' ∉ name.toList))
  | array element => decidableDelimited element
  | void | prim _ => inferInstanceAs (Decidable True)

theorem code_injective (k l : Prim) (h : k.code = l.code) : k = l := by
  cases k <;> cases l <;> first | rfl | exact absurd h (by decide)

end Ty

namespace Signature

def Delimited (sig : Signature) : Prop :=
  (∀ param ∈ sig.params, param.Delimited) ∧ sig.ret.Delimited

instance (sig : Signature) : Decidable sig.Delimited :=
  inferInstanceAs (Decidable ((∀ param ∈ sig.params, param.Delimited) ∧ sig.ret.Delimited))

theorem initializer_delimited : initializer.Delimited := by decide

theorem dispatch_delimited : dispatch.Delimited := by decide

theorem toList_descriptor (sig : Signature) :
    sig.descriptor.toList =
      '(' :: (sig.params.flatMap Ty.chars ++ (')' :: sig.ret.chars)) := by
  simp [descriptor, String.toList_join, List.flatMap_map, Ty.toList_descriptor]

end Signature

/-! Results. -/

namespace Ty

/-- A result that is no reference shows as one character. -/
theorem chars_of_value (ret : Ty) (value : ret.isReference = false) :
    ∃ c, ret.chars = [c] ∧ c ≠ ';' := by
  cases ret with
  | void => exact ⟨'V', rfl, by decide⟩
  | prim kind => exact ⟨kind.code, rfl, by cases kind <;> decide⟩
  | named _ | array _ => cases value

theorem value_eq_of_chars (ret other : Ty) (value : ret.isReference = false)
    (other_value : other.isReference = false) (h : ret.chars = other.chars) : ret = other := by
  have not_void (kind : Prim) : 'V' ≠ kind.code := by cases kind <;> decide
  cases ret with
  | named _ | array _ => cases value
  | void =>
      cases other with
      | void => rfl
      | prim kind => exact absurd (List.head_eq_of_cons_eq h) (not_void kind)
      | named _ | array _ => cases other_value
  | prim kind =>
      cases other with
      | void => exact absurd (List.head_eq_of_cons_eq h).symm (not_void kind)
      | prim other_kind => exact congrArg prim (code_injective _ _ (List.head_eq_of_cons_eq h))
      | named _ | array _ => cases other_value

/-- A reference shows its end, or the mark of an array before its last character. -/
theorem chars_of_reference (ret : Ty) (reference : ret.isReference = true) :
    (∃ s, ret.chars = s ++ [';']) ∨ ∃ s c, ret.chars = s ++ ['[', c] := by
  induction ret with
  | void | prim _ => cases reference
  | named name => exact .inl ⟨'L' :: name.toList, rfl⟩
  | array element ih =>
      cases item : element.isReference with
      | false =>
          obtain ⟨c, shown, -⟩ := element.chars_of_value item
          exact .inr ⟨[], c, by rw [chars, shown]; rfl⟩
      | true =>
          obtain ⟨s, shown⟩ | ⟨s, c, shown⟩ := ih item
          · exact .inl ⟨'[' :: s, by rw [chars, shown]; rfl⟩
          · exact .inr ⟨'[' :: s, c, by rw [chars, shown]; rfl⟩

/-- Nothing that stands before a result makes a value look like a reference. -/
theorem value_text_ne (ret other : Ty) (value : ret.isReference = false)
    (reference : other.isReference = true) (s t : List Char) :
    s ++ (')' :: ret.chars) ≠ t ++ (')' :: other.chars) := by
  obtain ⟨c, shown, not_end⟩ := ret.chars_of_value value
  intro same
  rw [shown] at same
  obtain ⟨u, ends⟩ | ⟨u, d, ends⟩ := other.chars_of_reference reference
  · rw [ends] at same
    have ended : (s ++ [')']) ++ [c] = (t ++ ')' :: u) ++ [';'] := by simpa using same
    have last := List.append_inj' ended rfl
    exact not_end (List.head_eq_of_cons_eq last.2)
  · rw [ends, ← List.cons_append, ← List.append_assoc] at same
    have last := List.append_inj' same rfl
    exact absurd (List.head_eq_of_cons_eq last.2) (by decide)

end Ty

/-- Signatures with one descriptor have results of one kind. -/
theorem Signature.erased_ret_eq (sig other : Signature) (h : sig.descriptor = other.descriptor) :
    sig.ret.erased = other.ret.erased := by
  have text := congrArg String.toList h
  rw [toList_descriptor, toList_descriptor] at text
  replace text := List.tail_eq_of_cons_eq text
  have erased_of_reference (ty : Ty) (reference : ty.isReference = true) : ty.erased = .object := by
    cases ty with
    | void | prim _ => cases reference
    | named _ | array _ => rfl
  cases ret : sig.ret.isReference with
  | true =>
      cases other_ret : other.ret.isReference with
      | true => rw [erased_of_reference _ ret, erased_of_reference _ other_ret]
      | false => exact absurd text.symm (Ty.value_text_ne _ _ other_ret ret _ _)
  | false =>
      cases other_ret : other.ret.isReference with
      | true => exact absurd text (Ty.value_text_ne _ _ ret other_ret _ _)
      | false =>
          obtain ⟨c, shown, -⟩ := sig.ret.chars_of_value ret
          obtain ⟨d, other_shown, -⟩ := other.ret.chars_of_value other_ret
          rw [shown, other_shown] at text
          have last := List.append_inj' text rfl
          rw [Ty.value_eq_of_chars sig.ret other.ret ret other_ret]
          rw [shown, other_shown, List.tail_eq_of_cons_eq last.2]

/-! Whole signatures. -/

/-- Two words that stop at the same sign, and do not contain it, are one. -/
theorem word_append_injective (sign : Char) (xs ys u v : List Char) (hx : sign ∉ xs)
    (hy : sign ∉ ys) (h : xs ++ sign :: u = ys ++ sign :: v) : xs = ys ∧ u = v := by
  induction xs generalizing ys with
  | nil =>
      cases ys with
      | nil => exact ⟨rfl, List.tail_eq_of_cons_eq h⟩
      | cons y ys => exact absurd (List.head_eq_of_cons_eq h ▸ List.mem_cons_self) hy
  | cons x xs ih =>
      cases ys with
      | nil => exact absurd (List.head_eq_of_cons_eq h ▸ List.mem_cons_self) hx
      | cons y ys =>
          obtain ⟨head, tail⟩ := List.cons.inj h
          obtain ⟨rest, same⟩ :=
            ih ys (fun mem => hx (.tail _ mem)) (fun mem => hy (.tail _ mem)) tail
          exact ⟨by rw [head, rest], same⟩

namespace Ty

/-- A type is told from what follows it. -/
theorem chars_append_injective (ty other : Ty) (u v : List Char) (delimited : ty.Delimited)
    (other_delimited : other.Delimited) (h : ty.chars ++ u = other.chars ++ v) :
    ty = other ∧ u = v := by
  induction ty generalizing other with
  | void =>
      cases other with
      | void => exact ⟨rfl, List.tail_eq_of_cons_eq h⟩
      | prim kind => exact absurd (List.head_eq_of_cons_eq h) (by cases kind <;> decide)
      | named _ | array _ => exact absurd (List.head_eq_of_cons_eq h) (by decide)
  | prim kind =>
      cases other with
      | prim other_kind =>
          obtain ⟨code, rest⟩ := List.cons.inj h
          exact ⟨congrArg prim (code_injective _ _ code), rest⟩
      | void | named _ | array _ =>
          exact absurd (List.head_eq_of_cons_eq h) (by cases kind <;> decide)
  | named name =>
      cases other with
      | named other_name =>
          have words : name.toList ++ ';' :: u = other_name.toList ++ ';' :: v := by
            simpa [chars] using h
          obtain ⟨same, rest⟩ := word_append_injective ';' _ _ _ _ delimited other_delimited words
          exact ⟨congrArg named (String.toList_injective same), rest⟩
      | prim kind => exact absurd (List.head_eq_of_cons_eq h) (by cases kind <;> decide)
      | void | array _ => exact absurd (List.head_eq_of_cons_eq h) (by decide)
  | array element ih =>
      cases other with
      | array other_element =>
          obtain ⟨same, rest⟩ := ih other_element delimited other_delimited
            (List.tail_eq_of_cons_eq h)
          exact ⟨congrArg array same, rest⟩
      | prim kind => exact absurd (List.head_eq_of_cons_eq h) (by cases kind <;> decide)
      | void | named _ => exact absurd (List.head_eq_of_cons_eq h) (by decide)

theorem chars_ne_close (ty : Ty) (u v : List Char) : ty.chars ++ u ≠ ')' :: v := by
  intro same
  cases ty with
  | prim kind => exact absurd (List.head_eq_of_cons_eq same) (by cases kind <;> decide)
  | void | named _ | array _ => exact absurd (List.head_eq_of_cons_eq same) (by decide)

/-- Parameters end where the parenthesis closes. -/
theorem params_append_injective (params others : List Ty) (u v : List Char)
    (delimited : ∀ param ∈ params, param.Delimited)
    (others_delimited : ∀ param ∈ others, param.Delimited)
    (h : params.flatMap chars ++ (')' :: u) = others.flatMap chars ++ (')' :: v)) :
    params = others ∧ u = v := by
  induction params generalizing others with
  | nil =>
      cases others with
      | nil => exact ⟨rfl, List.tail_eq_of_cons_eq h⟩
      | cons other others =>
          rw [List.flatMap_cons, List.append_assoc] at h
          exact absurd h.symm (other.chars_ne_close _ _)
  | cons param params ih =>
      cases others with
      | nil =>
          rw [List.flatMap_cons, List.append_assoc] at h
          exact absurd h (param.chars_ne_close _ _)
      | cons other others =>
          obtain ⟨first, rest⟩ := List.forall_mem_cons.mp delimited
          obtain ⟨other_first, other_rest⟩ := List.forall_mem_cons.mp others_delimited
          rw [List.flatMap_cons, List.flatMap_cons, List.append_assoc, List.append_assoc] at h
          obtain ⟨rfl, tail⟩ := chars_append_injective param other _ _ first other_first h
          obtain ⟨rfl, same⟩ := ih others rest other_rest tail
          exact ⟨rfl, same⟩

end Ty

/-- A descriptor stands for one signature only, as long as class names are delimited. -/
theorem Signature.eq_of_descriptor (sig other : Signature) (delimited : sig.Delimited)
    (other_delimited : other.Delimited) (h : sig.descriptor = other.descriptor) : sig = other := by
  have text := congrArg String.toList h
  rw [toList_descriptor, toList_descriptor] at text
  obtain ⟨params, ret⟩ := Ty.params_append_injective _ _ _ _ delimited.1 other_delimited.1
    (List.tail_eq_of_cons_eq text)
  have results := Ty.chars_append_injective sig.ret other.ret [] [] delimited.2 other_delimited.2
    (by rw [ret])
  cases sig
  cases other
  exact congr (congrArg Signature.mk params) results.1

end TokenDispatch
