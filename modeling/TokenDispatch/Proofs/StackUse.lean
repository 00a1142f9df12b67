import TokenDispatch.Proofs.RoutineLayout

/-!
How much of the stack straight code takes. Code that is put together from parts takes as much as the
part that takes most, and an open routine accepts it when that is within the limit. The routine of a
method takes one operand more than its call does, unless the method has no parameters.
-/

namespace TokenDispatch

variable {τ : Type}

/-- Code that finds its operands from one depth on and leaves another. The last number is the
greatest depth that any of its instructions leaves. -/
inductive StackUse : List (Instr τ) → Nat → Nat → Nat → Prop
  | nil (depth : Nat) : StackUse [] depth depth 0
  | cons {i : Instr τ} {is : List (Instr τ)} {depth after peak : Nat} (pops_le : i.pops ≤ depth)
      (rest : StackUse is (i.depthAfter depth) after peak) :
      StackUse (i :: is) depth after (max (i.depthAfter depth) peak)

namespace StackUse

theorem one (i : Instr τ) (depth : Nat) (pops_le : i.pops ≤ depth) :
    StackUse [i] depth (i.depthAfter depth) (i.depthAfter depth) := by
  have single := StackUse.cons pops_le (.nil (i.depthAfter depth))
  rwa [Nat.max_zero] at single

theorem append {is js : List (Instr τ)} {first middle last peak peak' : Nat}
    (h : StackUse is first middle peak) (h' : StackUse js middle last peak') :
    StackUse (is ++ js) first last (max peak peak') := by
  induction h with
  | nil depth => rwa [Nat.zero_max]
  | cons pops_le _ ih =>
      rw [Nat.max_assoc]
      exact .cons pops_le (ih h')

theorem load {is : List (Instr τ)} {depth after peak : Nat} (h : StackUse is (depth + 1) after peak)
    (slot : Nat) (le : depth + 1 ≤ peak) : StackUse (.loadLocal slot :: is) depth after peak := by
  have use : StackUse (.loadLocal slot :: is) depth after (max (depth + 1) peak) :=
    .cons (Nat.zero_le depth) h
  rwa [Nat.max_eq_right le] at use

end StackUse

namespace OpenRoutine

theorem permits_after (r : OpenRoutine) (i j : Instr Label) :
    (r.after i).Permits j ↔ r.Permits j := by
  cases j <;> exact Iff.rfl

/-- Within a block, code is accepted when every instruction is permitted and the greatest depth is
within the limit. -/
theorem acceptsAll_iff {is : List (Instr Label)} {depth after peak : Nat}
    (use : StackUse is depth after peak) (within : ∀ i ∈ is, i.endsBlock = false)
    (r : OpenRoutine) (reachable : r.reachable = true) (depth_eq : r.depth = depth) :
    r.AcceptsAll is ↔ (∀ i ∈ is, r.Permits i) ∧ peak ≤ frameLimit := by
  induction use generalizing r with
  | nil depth => simp [AcceptsAll]
  | @cons i is depth after peak pops_le _ ih =>
      obtain ⟨inside, insides⟩ := List.forall_mem_cons.mp within
      have depth_after : (r.after i).depth = i.depthAfter depth := by
        simp [OpenRoutine.after, inside, depth_eq, Instr.depthAfter]
      have reachable_after : (r.after i).reachable = true := by
        simp [OpenRoutine.after, inside]
      have rest := ih insides (r.after i) reachable_after depth_after
      simp only [permits_after] at rest
      rw [AcceptsAll, accepts_iff, rest, depth_eq, ← Instr.depthAfter, Nat.max_le,
        List.forall_mem_cons]
      simp only [reachable, pops_le, true_and]
      exact and_and_and_comm

/-- What code within a block leaves behind. -/
theorem afterAll_eq {is : List (Instr Label)} {depth after peak : Nat}
    (use : StackUse is depth after peak) (within : ∀ i ∈ is, i.endsBlock = false)
    (r : OpenRoutine) (reachable : r.reachable = true) (depth_eq : r.depth = depth) :
    r.afterAll is = { r with
      code := r.code ++ is
      depth := after
      maxStack := max r.maxStack peak } := by
  induction use generalizing r with
  | nil depth =>
      subst depth_eq
      simp [afterAll]
  | @cons i is depth after peak pops_le _ ih =>
      obtain ⟨inside, insides⟩ := List.forall_mem_cons.mp within
      have depth_after : (r.after i).depth = i.depthAfter depth := by
        simp [OpenRoutine.after, inside, depth_eq, Instr.depthAfter]
      have reachable_after : (r.after i).reachable = true := by
        simp [OpenRoutine.after, inside]
      have rest := ih insides (r.after i) reachable_after depth_after
      change (r.after i).afterAll is = _
      rw [rest]
      simp [OpenRoutine.after, inside, depth_eq, Instr.depthAfter, reachable, Nat.max_assoc]

end OpenRoutine

/-! The code of a method. -/

theorem Ty.narrowingCode_use (target : Ty) (depth : Nat) :
    ∃ peak ≤ depth + 1,
      StackUse (target.narrowingCode : List (Instr τ)) (depth + 1) (depth + 1) peak := by
  have one_le : 1 ≤ depth + 1 := Nat.le_add_left 1 depth
  have cast : ∃ peak ≤ depth + 1, StackUse (if target.isObject then [] else [.checkCast target] :
      List (Instr τ)) (depth + 1) (depth + 1) peak := by
    split
    · exact ⟨0, Nat.zero_le _, .nil _⟩
    · exact ⟨depth + 1, Nat.le_refl _, .one (.checkCast target) _ one_le⟩
  cases target with
  | prim kind => exact ⟨depth + 1, Nat.le_refl _, .one (.unbox kind) _ one_le⟩
  | void | named _ | array _ => exact cast

/-- An element is loaded above the array and the index it is taken with. -/
theorem Ty.element_use (param : Ty) (position depth : Nat) :
    StackUse ([.loadLocal Slot.arguments, .pushInt (.ofNat position), .arrayLoad] ++
      param.narrowingCode : List (Instr τ)) depth (depth + 1) (depth + 2) := by
  obtain ⟨peak, le, narrowing⟩ := param.narrowingCode_use (τ := τ) depth
  have element : StackUse [.arrayLoad] (depth + 2) (depth + 1) (depth + 1) :=
    .one (.arrayLoad : Instr τ) _ (Nat.le_add_left 2 depth)
  have index : StackUse [.pushInt (.ofNat position), .arrayLoad] (depth + 1) (depth + 1)
      (max (depth + 2) (depth + 1)) :=
    .cons (i := (.pushInt (.ofNat position) : Instr τ)) (Nat.zero_le _) element
  rw [Nat.max_eq_left (Nat.le_succ _)] at index
  have whole := (index.load Slot.arguments (Nat.le_succ _)).append narrowing
  rwa [Nat.max_eq_left (Nat.le_trans le (Nat.le_succ _))] at whole

theorem elementsCode_use (params : List Ty) (position depth : Nat) :
    StackUse (elementsCode params position : List (Instr τ)) depth (depth + params.length)
      (if params.length = 0 then 0 else depth + params.length + 1) := by
  induction params generalizing position depth with
  | nil => exact .nil depth
  | cons param params ih =>
      have whole := (param.element_use position depth).append (ih (position + 1) (depth + 1))
      have after_eq : depth + 1 + params.length = depth + (params.length + 1) := by omega
      have peak_eq : max (depth + 2)
          (if params.length = 0 then 0 else depth + (params.length + 1) + 1) =
            depth + (params.length + 1) + 1 := by
        split <;> omega
      rw [after_eq, peak_eq] at whole
      rwa [List.length_cons, if_neg (Nat.succ_ne_zero _)]

namespace Method

theorem site_operands (m : Method) :
    m.site.operands = m.params.length + if m.shape = .static then 0 else 1 := by
  change m.params.length + (if m.shape.kind.hasReceiver then 1 else 0) = _
  cases m.shape <;> rfl

theorem receiverCode_use (m : Method) :
    StackUse (m.receiverCode : List (Instr τ)) 0 (if m.shape = .static then 0 else 1)
      (if m.shape = .static then 0 else 1) := by
  rw [receiverCode]
  split
  · exact .nil 0
  · obtain ⟨peak, le, narrowing⟩ := m.target.narrowingCode_use (τ := τ) 0
    have whole : StackUse (.loadLocal Slot.receiver :: m.target.narrowingCode) 0 1
        (max 1 peak) := .cons (i := (.loadLocal Slot.receiver : Instr τ)) (Nat.zero_le _) narrowing
    rwa [Nat.max_eq_left le] at whole

/-- The code up to the return. -/
def bodyCode (m : Method) : List (Instr τ) :=
  m.receiverCode ++ elementsCode m.params 0 ++ [.call m.site] ++ m.ret.referenceCode

theorem code_eq (m : Method) : (m.code : List (Instr τ)) = m.bodyCode ++ [.ret] := rfl

/-- The most operands that the code of a method has on the stack: the last argument is loaded above
all operands before it and the array. -/
def peak (m : Method) : Nat := if m.params.length = 0 then 1 else m.site.operands + 1

theorem bodyCode_use (m : Method) : StackUse (m.bodyCode : List (Instr τ)) 0 1 m.peak := by
  have operands := (m.receiverCode_use (τ := τ)).append (elementsCode_use m.params 0 _)
  rw [Nat.add_comm _ m.params.length, ← m.site_operands] at operands
  have call := StackUse.one (.call m.site : Instr τ) m.site.operands (Nat.le_refl _)
  have called : (.call m.site : Instr τ).depthAfter m.site.operands =
      if m.ret.isVoid then 0 else 1 := by
    change m.site.operands - m.site.operands + _ = _
    rw [Nat.sub_self, Nat.zero_add]
    rfl
  rw [called] at call
  have reference : StackUse (m.ret.referenceCode : List (Instr τ))
      (if m.ret.isVoid then 0 else 1) 1 (if m.ret.isReference then 0 else 1) := by
    cases m.ret with
    | void => exact .one .pushNull 0 (Nat.le_refl 0)
    | prim kind => exact .one (.box kind) 1 (Nat.le_refl 1)
    | named _ | array _ => exact .nil 1
  have whole := (operands.append call).append reference
  have peak_eq : max (max (max (if m.shape = .static then 0 else 1)
      (if m.params.length = 0 then 0 else m.site.operands + 1)) (if m.ret.isVoid then 0 else 1))
      (if m.ret.isReference then 0 else 1) = m.peak := by
    have result : max (if m.ret.isVoid then 0 else 1) (if m.ret.isReference then 0 else 1) = 1 := by
      cases m.ret <;> rfl
    rw [Nat.max_assoc, result, peak, m.site_operands]
    split <;> split <;> omega
  rwa [peak_eq] at whole

end Method

end TokenDispatch
