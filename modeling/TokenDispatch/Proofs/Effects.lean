import TokenDispatch.Machine

/-!
How actions on the world run. None of them reads the record of outside calls, and none takes a call
back: whatever an action does, the calls made before it are still there, in their order.
-/

namespace TokenDispatch

namespace Exec

variable {α β : Type}

theorem lift_apply (x : Except Fault α) (w : World) : (liftM x : Exec α) w = (x, w) := rfl

theorem bind_apply (x : Exec α) (f : α → Exec β) (w : World) :
    (x >>= f) w = match x w with
      | (.ok a, w) => f a w
      | (.error fault, w) => (.error fault, w) := by
  change (match x w with
    | (r, v) => (ExceptT.bindCont f r : StateM World (Except Fault β)) v) = _
  obtain ⟨fault | a, v⟩ := x w <;> rfl

theorem map_apply (g : α → β) (x : Exec α) (w : World) :
    (g <$> x) w = ((x w).1.map g, (x w).2) := by
  rw [map_eq_pure_bind, bind_apply]
  obtain ⟨fault | a, v⟩ := x w <;> rfl

end Exec

/-- The calls recorded in one world are the first that are recorded in another. -/
def World.Before (w v : World) : Prop := w.calls.toList <+: v.calls.toList

namespace World.Before

theorem refl (w : World) : w.Before w := List.prefix_refl _

theorem trans {u v w : World} (h : u.Before v) (k : v.Before w) : u.Before w :=
  List.IsPrefix.trans h k

end World.Before

namespace Exec

variable {α β : Type}

/-- What an action does rests on the heap alone: whatever calls are recorded before it, it ends
alike, leaves the same heap and records the same calls after them. -/
def Oblivious (x : Exec α) : Prop :=
  ∀ heap, ∃ result left made, ∀ calls, x ⟨heap, calls⟩ = (result, ⟨left, calls ++ made⟩)

theorem Oblivious.before {x : Exec α} (h : x.Oblivious) (w : World) : w.Before (x w).2 := by
  obtain ⟨heap, calls⟩ := w
  obtain ⟨result, left, made, run⟩ := h heap
  rw [run]
  change calls.toList <+: (calls ++ made).toList
  rw [Array.toList_append]
  exact List.prefix_append _ _

theorem oblivious_lift (x : Except Fault α) : Oblivious (liftM x) :=
  fun heap => ⟨x, heap, #[], fun calls => by rw [lift_apply, Array.append_empty]⟩

theorem oblivious_pure (a : α) : Oblivious (pure a) := oblivious_lift (.ok a)

theorem oblivious_throw (fault : Fault) : Oblivious (throw fault : Exec α) :=
  oblivious_lift (.error fault)

theorem oblivious_bind {x : Exec α} {f : α → Exec β} (hx : Oblivious x)
    (hf : ∀ a, Oblivious (f a)) : Oblivious (x >>= f) := by
  intro heap
  obtain ⟨fault | a, left, made, first⟩ := hx heap
  · exact ⟨.error fault, left, made, fun calls => by rw [bind_apply, first]⟩
  · obtain ⟨result, last, later, second⟩ := hf a left
    refine ⟨result, last, made ++ later, fun calls => ?_⟩
    rw [bind_apply, first]
    dsimp only
    rw [second, Array.append_assoc]

theorem oblivious_outside (action : Heap → Except Fault α × Heap)
    (record : Except Fault α → OutsideCall) : Oblivious (World.outside action record) :=
  fun heap => ⟨(action heap).1, (action heap).2, #[record (action heap).1], fun _ => rfl⟩

end Exec

open Exec

theorem HostMethod.call_oblivious (m : HostMethod) (receiver : Option Value)
    (args : List Operand) : Oblivious (m.call receiver args) := by
  refine oblivious_bind (oblivious_outside _ _) fun result => ?_
  split
  · exact oblivious_pure none
  · split
    · exact oblivious_throw _
    · exact oblivious_pure _

namespace Environment

variable (env : Environment)

theorem call_oblivious (m : HostMethod) (receiver : Option Value) (args : List Operand) :
    Oblivious (env.call m receiver args) := by
  refine oblivious_bind (oblivious_lift _) fun _ => ?_
  refine oblivious_bind (m.call_oblivious receiver args) fun result => ?_
  split
  · split
    · exact oblivious_pure _
    · exact oblivious_throw _
  · exact oblivious_pure _

theorem invokeStatic_oblivious (owner name : String) (sig : Signature) (args : List Operand) :
    Oblivious (env.invokeStatic owner name sig args) :=
  oblivious_bind (oblivious_lift _) fun m => env.call_oblivious m none args

theorem invokeVirtual_oblivious (owner name : String) (sig : Signature) (receiver : Value)
    (args : List Operand) : Oblivious (env.invokeVirtual owner name sig receiver args) :=
  oblivious_bind (oblivious_lift _) fun m => env.call_oblivious m (some receiver) args

theorem invokeInterface_oblivious (owner name : String) (sig : Signature) (receiver : Value)
    (args : List Operand) : Oblivious (env.invokeInterface owner name sig receiver args) :=
  oblivious_bind (oblivious_lift _) fun m => env.call_oblivious m (some receiver) args

end Environment

namespace Program

variable (p : Program)

theorem callFallback_oblivious (args : List Operand) : Oblivious (p.callFallback args) := by
  rw [callFallback]
  split
  · split
    · split
      · exact oblivious_bind (oblivious_outside _ _) fun _ => oblivious_pure _
      · exact oblivious_throw _
    · exact oblivious_throw _
  · exact oblivious_throw _

theorem callOutside_oblivious (site : CallSite) (receiver : Option Value) (args : List Operand) :
    Oblivious (p.callOutside site receiver args) := by
  unfold callOutside
  split
  · exact p.env.invokeStatic_oblivious _ _ _ _
  · exact p.env.invokeVirtual_oblivious _ _ _ _ _
  · exact p.env.invokeInterface_oblivious _ _ _ _ _
  · exact oblivious_throw _

theorem answer_records {action : Exec (Option Operand)} (h : Oblivious action) (f : Frame)
    (site : CallSite) (callers : List Caller) (w : World) :
    w.Before (answer action f site callers w).2 := by
  have grows := h.before w
  rw [answer]
  generalize action w = outcome at grows ⊢
  obtain ⟨fault | result, v⟩ := outcome
  · exact grows
  · exact grows

theorem enter_records (site : CallSite) (receiver : Option Value) (args : List Operand)
    (f : Frame) (callers : List Caller) (w : World) :
    w.Before (p.enter site receiver args f callers w).2 := by
  rw [enter]
  split
  · split <;> exact .refl w
  · exact answer_records (oblivious_bind (oblivious_outside _ _) fun _ => oblivious_pure _) _ _ _ w
  · exact answer_records (p.callFallback_oblivious args) _ _ _ w
  · exact answer_records (p.callOutside_oblivious site receiver args) _ _ _ w

theorem step_records (c : Config) (w : World) : w.Before (p.step c w).2 := by
  rw [step]
  split
  · exact .refl w
  · dsimp only
    split
    · split <;> exact .refl w
    · exact .refl w
    · rw [call]
      split
      · exact .refl w
      · split
        · exact .refl w
        · exact p.enter_records _ _ _ _ _ w
    · exact .refl w

theorem run_records (steps : Nat) (c : Config) (w : World) : w.Before (p.run steps c w).2 := by
  induction steps generalizing c w with
  | zero => exact .refl w
  | succ steps ih =>
      have first := p.step_records c w
      rw [run]
      generalize p.step c w = outcome at first ⊢
      obtain ⟨next | result | fault, v⟩ := outcome
      · exact first.trans (ih next v)
      · exact first
      · exact first

end Program

end TokenDispatch
