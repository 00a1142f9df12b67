import TokenDispatch.Proofs.Assembly
import TokenDispatch.Proofs.Script

/-!
The code of a generated unit as data: the instructions of each routine, with positions for branch
targets, and the methods that have a routine at all. The scripts of the generator add exactly these
instructions to an open routine.
-/

namespace TokenDispatch

variable {τ ρ L : Type}

/-- A method that a routine can be made for: it is called on a class or an interface, every
parameter takes a value, and the positions of arguments are ints. -/
structure Method.Callable (m : Method) : Prop where
  owner : m.target = .named m.target.text
  params : ∀ param ∈ m.params, param ≠ .void
  positions : ∀ position < m.params.length, position < indexLimit

namespace Ty

def narrowingCode : Ty → List (Instr τ)
  | .prim kind => [.unbox kind]
  | target => if target.isObject then [] else [.checkCast target]

theorem narrowingCode_of_reference (target : Ty) (h : target.isReference = true) :
    (target.narrowingCode : List (Instr τ)) =
      if target.isObject then [] else [.checkCast target] := by
  cases target with
  | void | prim _ => cases h
  | named _ | array _ => rfl

def referenceCode : Ty → List (Instr τ)
  | .void => [.pushNull]
  | .prim kind => [.box kind]
  | .named _ | .array _ => []

end Ty

/-- Elements of the argument array, from a position on, as their declared types. -/
def elementsCode : List Ty → Nat → List (Instr τ)
  | [], _ => []
  | param :: params, position =>
      [.loadLocal Slot.arguments, .pushInt (.ofNat position), .arrayLoad] ++
        param.narrowingCode ++ elementsCode params (position + 1)

namespace Method

def site (m : Method) : CallSite :=
  { kind := m.shape.kind, owner := m.target.text, name := m.name, sig := m.signature }

def receiverCode (m : Method) : List (Instr τ) :=
  if m.shape = .static then [] else .loadLocal Slot.receiver :: m.target.narrowingCode

def code (m : Method) : List (Instr τ) :=
  m.receiverCode ++ elementsCode m.params 0 ++ [.call m.site] ++ m.ret.referenceCode ++ [.ret]

end Method

/-! Which instructions the operands of a call are loaded with. -/

inductive Instr.Loads : Instr τ → Prop
  | slot {slot : Nat} (le : slot ≤ Slot.arguments) : Loads (.loadLocal slot)
  | pushInt (value : Int32) : Loads (.pushInt value)
  | arrayLoad : Loads .arrayLoad
  | unbox (kind : Prim) : Loads (.unbox kind)
  | checkCast {target : Ty} (reference : target.isReference = true) : Loads (.checkCast target)

theorem Ty.narrowingCode_loads (target : Ty) (value : target ≠ .void) :
    ∀ i ∈ (target.narrowingCode : List (Instr τ)), i.Loads := by
  cases target with
  | void => exact absurd rfl value
  | prim kind => exact List.forall_mem_singleton.mpr (.unbox kind)
  | named _ | array _ =>
      intro i mem
      rw [narrowingCode_of_reference _ rfl] at mem
      split at mem
      · cases mem
      · cases List.mem_singleton.mp mem
        exact .checkCast rfl

theorem elementsCode_loads (params : List Ty) (values : ∀ param ∈ params, param ≠ .void)
    (position : Nat) : ∀ i ∈ (elementsCode params position : List (Instr τ)), i.Loads := by
  induction params generalizing position with
  | nil => exact nofun
  | cons param params ih =>
      obtain ⟨value, values⟩ := List.forall_mem_cons.mp values
      have element : ∀ i ∈ ([.loadLocal Slot.arguments, .pushInt (.ofNat position), .arrayLoad] :
          List (Instr τ)), i.Loads := by
        simp [Instr.Loads.slot, Instr.Loads.pushInt, Instr.Loads.arrayLoad]
      rw [elementsCode, List.forall_mem_append, List.forall_mem_append]
      exact ⟨⟨element, param.narrowingCode_loads value⟩, ih values (position + 1)⟩

theorem Method.operandsCode_loads (m : Method) (callable : m.Callable) :
    ∀ i ∈ (m.receiverCode ++ elementsCode m.params 0 : List (Instr τ)), i.Loads := by
  rw [List.forall_mem_append]
  refine ⟨?_, elementsCode_loads m.params callable.params 0⟩
  rw [receiverCode]
  split
  · exact nofun
  · have value : m.target ≠ .void := by
      rw [callable.owner]
      exact Ty.noConfusion
    exact List.forall_mem_cons.mpr ⟨.slot (by decide), m.target.narrowingCode_loads value⟩

namespace Script

/-- A script that ends, and adds these instructions to a routine. -/
def Adds (s : Script L) (code : List (Instr τ)) : Prop :=
  (∀ d ∈ s.calls, (d.instr? : Option (Instr τ)).isSome) ∧ s.calls.filterMap Directive.instr? = code

theorem Adds.append {s t : Script L} {xs ys : List (Instr τ)} (stop : s.stop = none)
    (hs : s.Adds xs) (ht : t.Adds ys) : (s ++ t).Adds (xs ++ ys) := by
  obtain ⟨plain, rfl⟩ := hs
  obtain ⟨plain', rfl⟩ := ht
  rw [Adds, append_calls _ _ stop]
  refine ⟨fun d mem => ?_, List.filterMap_append⟩
  cases List.mem_append.mp mem with
  | inl mem => exact plain d mem
  | inr mem => exact plain' d mem

theorem narrowing_adds (target : Ty) (h : (narrowing target : Script L).stop = none) :
    target ≠ .void ∧
      (narrowing target : Script L).Adds (target.narrowingCode : List (Instr τ)) := by
  cases target with
  | void => cases h
  | prim kind =>
      refine ⟨Ty.noConfusion, ?_⟩
      simp [Adds, narrowing, Ty.narrowingCode, Directive.instr?]
  | named _ | array _ =>
      refine ⟨Ty.noConfusion, ?_⟩
      simp only [Adds, narrowing, Ty.narrowingCode]
      split <;> simp [Directive.instr?]

theorem element_adds (param : Ty) (position : Nat)
    (h : (element param position : Script L).stop = none) :
    param ≠ .void ∧ position < indexLimit ∧
      (element param position : Script L).Adds
        ([.loadLocal Slot.arguments, .pushInt (.ofNat position), .arrayLoad] ++
          param.narrowingCode : List (Instr τ)) := by
  rw [element] at h ⊢
  split at h
  · cases h
  · rename_i low
    rw [if_neg low]
    have stop := ((append_stop_eq_none_iff _ _).mp h).2
    obtain ⟨value, adds⟩ := narrowing_adds (τ := τ) param stop
    exact ⟨value, Nat.not_le.mp low, .append rfl ⟨by simp [Directive.instr?], rfl⟩ adds⟩

theorem elements_adds (params : List Ty) (start : Nat)
    (h : (all ((params.zipIdx start).map fun (param, position) => element param position) :
      Script L).stop = none) :
    (∀ param ∈ params, param ≠ .void) ∧
      (∀ position < params.length, start + position < indexLimit) ∧
      (all ((params.zipIdx start).map fun (param, position) => element param position) :
        Script L).Adds (elementsCode params start : List (Instr τ)) := by
  induction params generalizing start with
  | nil => exact ⟨nofun, nofun, nofun, rfl⟩
  | cons param params ih =>
      rw [List.zipIdx_cons, List.map_cons] at h ⊢
      obtain ⟨head, tail⟩ := (append_stop_eq_none_iff _ _).mp h
      obtain ⟨value, low, first⟩ := element_adds (τ := τ) param start head
      obtain ⟨values, positions, rest⟩ := ih (start + 1) tail
      refine ⟨List.forall_mem_cons.mpr ⟨value, values⟩, fun position lt => ?_,
        .append head first rest⟩
      cases position with
      | zero => exact low
      | succ position =>
          have := positions position (Nat.lt_of_succ_lt_succ lt)
          omega

theorem receiver_adds (m : Method) (h : (receiver m : Script L).stop = none) :
    (receiver m : Script L).Adds (m.receiverCode : List (Instr τ)) := by
  unfold receiver Method.receiverCode at *
  split at h
  · rename_i static
    rw [if_pos static, if_pos static]
    exact ⟨nofun, rfl⟩
  · rename_i instance_
    rw [if_neg instance_, if_neg instance_]
    have stop := ((append_stop_eq_none_iff _ _).mp h).2
    exact .append rfl ⟨by simp [Directive.instr?], rfl⟩ (narrowing_adds m.target stop).2

theorem reference_adds (ret : Ty) :
    (reference ret : Script L).Adds (ret.referenceCode : List (Instr τ)) := by
  cases ret <;> simp [Adds, reference, Ty.referenceCode, Directive.instr?]

/-- Only a method that can be called has a body, and the body is its code. -/
theorem methodBody_adds (m : Method) (h : (methodBody m : Script L).stop = none) :
    m.Callable ∧ (methodBody m : Script L).Adds (m.code : List (Instr τ)) := by
  obtain ⟨front, -⟩ := (append_stop_eq_none_iff _ _).mp h
  obtain ⟨call, -⟩ := (append_stop_eq_none_iff _ _).mp front
  cases target : m.target with
  | named owner =>
      have call_eq : (targetCall m : Script L) = receiver m ++ elements m.params ++
          ⟨[.invoke m.shape.kind m.target.text m.name m.signature], none⟩ := by
        simp [targetCall, target, Ty.className?, Ty.text]
      rw [call_eq] at call
      obtain ⟨operands, -⟩ := (append_stop_eq_none_iff _ _).mp call
      obtain ⟨head, tail⟩ := (append_stop_eq_none_iff _ _).mp operands
      obtain ⟨values, positions, adds⟩ := elements_adds (τ := τ) m.params 0 tail
      refine ⟨⟨by simp [target, Ty.text], values, by simpa using positions⟩, ?_⟩
      refine .append front (.append (by rw [call_eq]; exact call) ?_ (reference_adds m.ret))
        ⟨by simp [Directive.instr?], rfl⟩
      rw [call_eq]
      refine .append operands (.append head (receiver_adds m head) adds) ?_
      exact ⟨by simp [Directive.instr?], rfl⟩
  | void | prim _ | array _ => simp [targetCall, target, Ty.className?] at call

end Script

end TokenDispatch
