import TokenDispatch.Proofs.Assembly
import TokenDispatch.Proofs.Effects

/-!
Whole runs of the machine. A run that ends is described without a count of steps, and with the calls
outside that it may ask for: with enough steps the machine gives exactly this result, and with fewer
it has recorded a part of the same calls. Code without calls and branches runs like one instruction.
-/

namespace TokenDispatch

namespace Outcome

variable {ε α : Type}

def ofExcept : Except ε α → Outcome ε α
  | .ok a => .done a
  | .error e => .failed e

theorem ofExcept_eq_done {x : Except ε α} {a : α} (h : ofExcept x = .done a) : x = .ok a := by
  cases x <;> cases h
  rfl

theorem ofExcept_eq_failed {x : Except ε α} {e : ε} (h : ofExcept x = .failed e) :
    x = .error e := by
  cases x <;> cases h
  rfl

def isDone : Outcome ε α → Bool
  | done _ => true
  | _ => false

theorem eq_done_of_isDone (o : Outcome ε α) (h : o.isDone = true) : ∃ a, o = done a := by
  cases o with
  | done a => exact ⟨a, rfl⟩
  | failed _ | exhausted => cases h

end Outcome

namespace Program

variable {p : Program} {allowed : CallSite → Option Value → Prop} {c d : Config} {w u v : World}
  {r : Except Fault (Option Operand)}

/-- The call that a configuration is about to make outside of the unit, and its receiver. -/
def Asks (p : Program) (c : Config) (site : CallSite) (receiver : Option Value) : Prop :=
  c.frame.routine.code[c.frame.position]? = some (.call site) ∧ p.unit.link? site = none ∧
    ∃ args f g, c.frame.popArguments site = .ok (args, f) ∧
      f.popReceiver site = .ok (receiver, g)

def AsksOnly (p : Program) (allowed : CallSite → Option Value → Prop) (c : Config) : Prop :=
  ∀ site receiver, p.Asks c site receiver → allowed site receiver

/-- A call that is linked asks for nothing outside. -/
theorem asksOnly_of_linked (site : CallSite) (link : Link)
    (here : c.frame.routine.code[c.frame.position]? = some (.call site))
    (linked : p.unit.link? site = some link) : p.AsksOnly allowed c := by
  intro site' receiver asks
  obtain ⟨called, unlinked, -⟩ := asks
  cases here.symm.trans called
  cases linked.symm.trans unlinked

/-- Nor does an instruction that is no call. -/
theorem asksOnly_of_code (i : Instr Nat) (here : c.frame.routine.code[c.frame.position]? = some i)
    (other : ∀ site, i ≠ .call site) : p.AsksOnly allowed c := by
  intro site receiver asks
  obtain ⟨called, -⟩ := asks
  cases here.symm.trans called
  exact absurd rfl (other site)

/-- From a configuration and a world, the machine comes to this end, and on the way it asks for
allowed calls only. -/
inductive Yields (p : Program) (allowed : CallSite → Option Value → Prop) :
    Config → World → Except Fault (Option Operand) → World → Prop
  | returned {c : Config} {w v : World} {result : Option Operand} (asks : p.AsksOnly allowed c)
      (step : p.step c w = (.returned result, v)) : Yields p allowed c w (.ok result) v
  | failed {c : Config} {w v : World} {fault : Fault} (asks : p.AsksOnly allowed c)
      (step : p.step c w = (.failed fault, v)) : Yields p allowed c w (.error fault) v
  | next {c d : Config} {w u v : World} {r : Except Fault (Option Operand)}
      (asks : p.AsksOnly allowed c) (step : p.step c w = (.next d, u))
      (rest : Yields p allowed d u r v) : Yields p allowed c w r v

namespace Yields

theorem asksOnly (h : p.Yields allowed c w r v) : p.AsksOnly allowed c := by
  cases h with
  | returned asks _ | failed asks _ | next asks _ _ => exact asks

theorem returned_iff {result : Option Operand} (asks : p.AsksOnly allowed c)
    (step : p.step c w = (.returned result, u)) :
    p.Yields allowed c w r v ↔ r = .ok result ∧ v = u := by
  constructor
  · intro yields
    cases yields with
    | returned _ step' =>
        cases step.symm.trans step'
        exact ⟨rfl, rfl⟩
    | failed _ step' | next _ step' _ => cases step.symm.trans step'
  · rintro ⟨rfl, rfl⟩
    exact .returned asks step

theorem failed_iff {fault : Fault} (asks : p.AsksOnly allowed c)
    (step : p.step c w = (.failed fault, u)) :
    p.Yields allowed c w r v ↔ r = .error fault ∧ v = u := by
  constructor
  · intro yields
    cases yields with
    | failed _ step' =>
        cases step.symm.trans step'
        exact ⟨rfl, rfl⟩
    | returned _ step' | next _ step' _ => cases step.symm.trans step'
  · rintro ⟨rfl, rfl⟩
    exact .failed asks step

theorem next_iff (asks : p.AsksOnly allowed c) (step : p.step c w = (.next d, u)) :
    p.Yields allowed c w r v ↔ p.Yields allowed d u r v := by
  refine ⟨fun yields => ?_, .next asks step⟩
  cases yields with
  | next _ step' rest =>
      cases step.symm.trans step'
      exact rest
  | returned _ step' | failed _ step' => cases step.symm.trans step'

end Yields

theorem Yields.before (h : p.Yields allowed c w r v) : w.Before v := by
  induction h with
  | @returned c w v result _ step | @failed c w v fault _ step =>
      have grows := p.step_records c w
      rw [step] at grows
      exact grows
  | @next c d w u v r _ step _ ih =>
      have grows := p.step_records c w
      rw [step] at grows
      exact grows.trans ih

/-- Enough steps give the end that the machine comes to; fewer run out on the way there. -/
theorem Yields.run (h : p.Yields allowed c w r v) :
    ∃ enough, ∀ steps,
      (enough ≤ steps → p.run steps c w = (.ofExcept r, v)) ∧
      (steps < enough → ∃ u, p.run steps c w = (.exhausted, u) ∧ u.Before v) := by
  have start_before := h.before
  induction h with
  | @returned c w v result _ step | @failed c w v fault _ step =>
      refine ⟨1, fun steps => ⟨fun enough => ?_, fun few => ?_⟩⟩
      · obtain ⟨steps, rfl⟩ := Nat.exists_eq_add_of_le' enough
        simp only [Program.run, step]
        rfl
      · cases Nat.lt_one_iff.mp few
        exact ⟨w, rfl, start_before⟩
  | @next c d w u v r _ step rest ih =>
      obtain ⟨enough, result⟩ := ih rest.before
      refine ⟨enough + 1, fun steps => ?_⟩
      cases steps with
      | zero =>
          exact ⟨fun le => absurd le (Nat.not_succ_le_zero _), fun _ => ⟨w, rfl, start_before⟩⟩
      | succ steps =>
          have run_eq : p.run (steps + 1) c w = p.run steps d u := by
            simp only [Program.run, step]
          rw [run_eq]
          exact ⟨fun le => (result steps).1 (Nat.le_of_succ_le_succ le),
            fun lt => (result steps).2 (Nat.lt_of_succ_lt_succ lt)⟩

end Program

/-! Straight code. -/

namespace Instr

variable {τ : Type}

/-- Whether an instruction stays within its frame. -/
def isLocal : Instr τ → Bool
  | call _ | ret | retVoid => false
  | _ => true

/-- Whether an instruction is always followed by the one after it, within the same frame. -/
def isStraight : Instr τ → Bool
  | call _ | ret | retVoid | lookupSwitch .. | tableSwitch .. => false
  | _ => true

theorem isLocal_of_isStraight (i : Instr τ) (h : i.isStraight = true) : i.isLocal = true := by
  cases i with
  | call _ | ret | retVoid | lookupSwitch _ _ | tableSwitch _ _ _ => cases h
  | _ => rfl

theorem endsBlock_of_isStraight (i : Instr τ) (h : i.isStraight = true) : i.endsBlock = false := by
  cases i with
  | call _ | ret | retVoid | lookupSwitch _ _ | tableSwitch _ _ _ => cases h
  | _ => rfl

end Instr

namespace Frame

/-- The code from the next instruction on. -/
def rest (f : Frame) : List (Instr Nat) := f.routine.code.toList.drop f.position

def next (f : Frame) : Frame := { f with position := f.position + 1 }

/-- Runs straight code. -/
def execAll (h : Hierarchy) : List (Instr Nat) → Frame → Except Fault Frame
  | [], f => .ok f
  | i :: is, f => do
      let f ← f.next.exec h i
      execAll h is f

theorem code_eq_of_rest (f : Frame) (i : Instr Nat) (is : List (Instr Nat))
    (h : f.rest = i :: is) : f.routine.code[f.position]? = some i ∧ f.next.rest = is := by
  have head : f.routine.code.toList[f.position]? = some i := by
    rw [← List.head?_drop]
    exact congrArg List.head? h
  have tail : f.next.rest = f.rest.tail := List.tail_drop.symm
  exact ⟨by rw [← Array.getElem?_toList]; exact head, by rw [tail, h]; rfl⟩

theorem execAll_append (h : Hierarchy) (is js : List (Instr Nat)) (f : Frame) :
    f.execAll h (is ++ js) = (do
      let g ← f.execAll h is
      g.execAll h js) := by
  induction is generalizing f with
  | nil => rfl
  | cons i is ih =>
      simp only [List.cons_append, execAll, bind_assoc]
      congr 1
      funext g
      exact ih g

theorem popReference_eq (f : Frame) (v : Value) (s : List Operand) (top : f.stack = .ref v :: s) :
    f.popReference = .ok (v, { f with stack := s }) := by
  simp only [popReference, pop, top, except_ok_bind]
  rfl

theorem popPrimitive_eq (f : Frame) (x : Primitive) (s : List Operand)
    (top : f.stack = .prim x :: s) : f.popPrimitive = .ok (x, { f with stack := s }) := by
  simp only [popPrimitive, pop, top, except_ok_bind]
  rfl

theorem popInt_eq (f : Frame) (n : Int32) (s : List Operand) (top : f.stack = .int n :: s) :
    f.popInt = .ok (n, { f with stack := s }) := by
  rw [popInt, f.popPrimitive_eq (.int n) s top]
  rfl

/-- A frame that differs from another only in the operands that were taken off its stack. -/
def Takes (f g : Frame) (count : Nat) : Prop :=
  ∃ stack, g = { f with stack := stack } ∧ f.stack.length = stack.length + count

theorem Takes.trans {f g k : Frame} {m n : Nat} (h : f.Takes g m) (h' : g.Takes k n) :
    f.Takes k (m + n) := by
  obtain ⟨first, rfl, taken⟩ := h
  obtain ⟨second, rfl, taken'⟩ := h'
  exact ⟨second, rfl, by dsimp only at taken'; omega⟩

theorem pop_takes (f g : Frame) (operand : Operand) (h : f.pop = .ok (operand, g)) :
    f.Takes g 1 := by
  rw [pop] at h
  split at h
  · rename_i stack
    cases h
    exact ⟨_, rfl, congrArg List.length stack⟩
  · cases h

theorem popReference_takes (f g : Frame) (v : Value) (h : f.popReference = .ok (v, g)) :
    f.Takes g 1 := by
  obtain ⟨⟨operand, _⟩, pop, rest⟩ := (except_bind_ok_iff _ _ _).mp h
  cases operand with
  | prim _ => cases rest
  | ref _ =>
      cases rest
      exact f.pop_takes _ _ pop

theorem popPrimitive_takes (f g : Frame) (x : Primitive) (h : f.popPrimitive = .ok (x, g)) :
    f.Takes g 1 := by
  obtain ⟨⟨operand, _⟩, pop, rest⟩ := (except_bind_ok_iff _ _ _).mp h
  cases operand with
  | ref _ => cases rest
  | prim _ =>
      cases rest
      exact f.pop_takes _ _ pop

theorem popInt_takes (f g : Frame) (n : Int32) (h : f.popInt = .ok (n, g)) : f.Takes g 1 := by
  obtain ⟨⟨x, _⟩, pop, rest⟩ := (except_bind_ok_iff _ _ _).mp h
  cases x with
  | int _ =>
      cases rest
      exact f.popPrimitive_takes _ _ pop
  | _ => cases rest

/-- A frame that differs from another in its stack only, as an instruction changes it. -/
def Moves (f g : Frame) (i : Instr Nat) : Prop :=
  ∃ stack, g = { f with stack := stack } ∧ i.pops ≤ f.stack.length ∧
    stack.length = i.depthAfter f.stack.length

/-- Operands are taken off the stack, and one is left there. -/
theorem Takes.moves {f g : Frame} (i : Instr Nat) (operand : Operand) (one : i.pushes = 1)
    (h : f.Takes g i.pops) : f.Moves (g.push operand) i := by
  obtain ⟨stack, rfl, taken⟩ := h
  refine ⟨operand :: stack, rfl, taken ▸ Nat.le_add_left _ _, ?_⟩
  rw [Instr.depthAfter, taken, one, Nat.add_sub_cancel]
  rfl

/-- A straight instruction changes nothing of a frame but its stack. -/
theorem exec_moves (h : Hierarchy) (i : Instr Nat) (straight : i.isStraight = true) (f g : Frame)
    (ok : f.exec h i = .ok g) : f.Moves g i := by
  have none_taken : f.Takes f 0 := ⟨f.stack, rfl, rfl⟩
  cases i with
  | loadLocal slot =>
      simp only [exec] at ok
      split at ok
      · cases ok
        exact none_taken.moves (.loadLocal slot) _ rfl
      · cases ok
  | pushInt n =>
      cases ok
      exact none_taken.moves (.pushInt n) _ rfl
  | pushNull =>
      cases ok
      exact none_taken.moves .pushNull _ rfl
  | arrayLoad =>
      obtain ⟨⟨index, f₁⟩, first, ok⟩ := (except_bind_ok_iff _ _ _).mp ok
      obtain ⟨⟨items, f₂⟩, second, ok⟩ := (except_bind_ok_iff _ _ _).mp ok
      obtain ⟨item, -, ok⟩ := (except_bind_ok_iff _ _ _).mp ok
      cases ok
      have taken := (f.popInt_takes _ _ first).trans (f₁.popReference_takes _ _ second)
      exact taken.moves .arrayLoad _ rfl
  | unbox kind =>
      obtain ⟨⟨v, f₁⟩, first, ok⟩ := (except_bind_ok_iff _ _ _).mp ok
      obtain ⟨x, -, ok⟩ := (except_bind_ok_iff _ _ _).mp ok
      cases ok
      exact (f.popReference_takes _ _ first).moves (.unbox kind) _ rfl
  | checkCast target =>
      obtain ⟨⟨v, f₁⟩, first, ok⟩ := (except_bind_ok_iff _ _ _).mp ok
      obtain ⟨_, -, ok⟩ := (except_bind_ok_iff _ _ _).mp ok
      cases ok
      exact (f.popReference_takes _ _ first).moves (.checkCast target) _ rfl
  | box kind =>
      obtain ⟨⟨x, f₁⟩, first, ok⟩ := (except_bind_ok_iff _ _ _).mp ok
      dsimp only at ok
      split at ok
      · cases ok
        exact (f.popPrimitive_takes _ _ first).moves (.box kind) _ rfl
      · cases ok
  | call _ | ret | retVoid | lookupSwitch _ _ | tableSwitch _ _ _ => cases straight

end Frame

namespace Program

variable {p : Program} {allowed : CallSite → Option Value → Prop} {w v : World}
  {r : Except Fault (Option Operand)}

theorem step_local (i : Instr Nat) (within : i.isLocal = true) (f : Frame)
    (callers : List Caller) (here : f.routine.code[f.position]? = some i) (w : World) :
    p.step ⟨f, callers⟩ w = (Config.resume (f.next.exec p.env.hierarchy i) callers, w) := by
  rw [step]
  simp only [here]
  cases i with
  | call _ | ret | retVoid => cases within
  | _ => rfl

theorem step_call (site : CallSite) (f : Frame) (callers : List Caller)
    (here : f.routine.code[f.position]? = some (.call site)) (w : World) :
    p.step ⟨f, callers⟩ w = p.call site f.next callers w := by
  rw [step]
  simp only [here]
  rfl

theorem step_ret (f : Frame) (callers : List Caller)
    (here : f.routine.code[f.position]? = some .ret) (w : World) :
    p.step ⟨f, callers⟩ w =
      match f.next.popReference with
      | .ok (v, _) => (Config.giveBack callers (some (.ref v)), w)
      | .error fault => (.failed fault, w) := by
  rw [step]
  simp only [here]
  rfl

theorem step_retVoid (f : Frame) (callers : List Caller)
    (here : f.routine.code[f.position]? = some .retVoid) (w : World) :
    p.step ⟨f, callers⟩ w = (Config.giveBack callers none, w) := by
  rw [step]
  simp only [here]

theorem asksOnly_of_local (i : Instr Nat) (within : i.isLocal = true) (f : Frame)
    (callers : List Caller) (here : f.routine.code[f.position]? = some i) :
    p.AsksOnly allowed ⟨f, callers⟩ := by
  refine asksOnly_of_code i here fun site same => ?_
  rw [same] at within
  cases within

variable (allowed) in
/-- Straight code either faults, or the run goes on where it ends. -/
theorem Yields.straight_iff (is rest : List (Instr Nat))
    (straight : ∀ i ∈ is, i.isStraight = true) (f : Frame) (callers : List Caller)
    (here : f.rest = is ++ rest) :
    (∀ fault, f.execAll p.env.hierarchy is = .error fault →
      (p.Yields allowed ⟨f, callers⟩ w r v ↔ r = .error fault ∧ v = w)) ∧
    ∀ g, f.execAll p.env.hierarchy is = .ok g →
      (p.Yields allowed ⟨f, callers⟩ w r v ↔ p.Yields allowed ⟨g, callers⟩ w r v) := by
  induction is generalizing f with
  | nil =>
      refine ⟨nofun, fun g done => ?_⟩
      cases done
      exact Iff.rfl
  | cons i is ih =>
      obtain ⟨at_i, at_is⟩ := f.code_eq_of_rest i (is ++ rest) here
      have within := i.isLocal_of_isStraight (straight i (.head _))
      have asks : p.AsksOnly allowed ⟨f, callers⟩ := asksOnly_of_local i within f callers at_i
      have step := step_local (p := p) i within f callers at_i w
      have moves := fun g => f.next.exec_moves p.env.hierarchy i (straight i (.head _)) (g := g)
      rw [Frame.execAll]
      cases first : f.next.exec p.env.hierarchy i with
      | error fault =>
          rw [first] at step
          refine ⟨fun fault' same => ?_, nofun⟩
          cases same
          exact failed_iff asks step
      | ok g =>
          rw [first] at step
          obtain ⟨stack, rfl, -⟩ := moves g first
          obtain ⟨faults, goes_on⟩ :=
            ih (fun j mem => straight j (.tail _ mem)) { f.next with stack := stack } at_is
          exact ⟨fun fault failed => (next_iff asks step).trans (faults fault failed),
            fun k done => (next_iff asks step).trans (goes_on k done)⟩

end Program

end TokenDispatch
