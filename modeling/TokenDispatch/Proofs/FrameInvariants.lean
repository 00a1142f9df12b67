import Mathlib.Logic.Relation
import TokenDispatch.Proofs.SwitchRouting

/-!
What holds of every frame of a run. A property of the frame that runs, and one of the frames that
wait for it, are kept by a whole run if single instructions, calls and returns keep them. A run that
fails does so in one step from a configuration that it came to.
-/

namespace TokenDispatch

namespace Frame

theorem popArguments_takes (f g : Frame) (site : CallSite) (args : List Operand)
    (h : f.popArguments site = .ok (args, g)) : f.Takes g site.sig.params.length := by
  unfold popArguments at h
  dsimp only at h
  split at h
  · cases h
  · rename_i enough
    cases h
    refine ⟨_, rfl, ?_⟩
    rw [List.length_drop]
    omega

theorem popArguments_length (f g : Frame) (site : CallSite) (args : List Operand)
    (h : f.popArguments site = .ok (args, g)) : args.length = site.sig.params.length := by
  unfold popArguments at h
  dsimp only at h
  split at h
  · cases h
  · rename_i enough
    cases h
    rw [List.length_reverse, List.length_take, Nat.min_eq_left (Nat.not_lt.mp enough)]

theorem popReceiver_takes (f g : Frame) (site : CallSite) (receiver : Option Value)
    (h : f.popReceiver site = .ok (receiver, g)) :
    f.Takes g (if site.kind.hasReceiver then 1 else 0) := by
  rw [popReceiver] at h
  split at h
  · rename_i with_receiver
    obtain ⟨⟨v, k⟩, popped, rest⟩ := (except_bind_ok_iff _ _ _).mp h
    cases rest
    rw [if_pos with_receiver]
    exact f.popReference_takes _ _ popped
  · rename_i alone
    cases h
    rw [if_neg alone]
    exact ⟨f.stack, rfl, rfl⟩

/-- A switch takes its key and goes to one of its targets. -/
theorem exec_switch (h : Hierarchy) (f g : Frame) (i : Instr Nat) (within : i.isLocal = true)
    (switch : i.isStraight = false) (ok : f.exec h i = .ok g) :
    i.pops = 1 ∧ i.pushes = 0 ∧
      ∃ k target, f.Takes k 1 ∧ target ∈ i.targets ∧ g = { k with position := target } := by
  cases i with
  | lookupSwitch _ _ | tableSwitch _ _ _ =>
      rw [f.exec_eq_map h _ fun key => ⟨_, rfl⟩] at ok
      cases taken : f.popInt with
      | error fault =>
          rw [taken] at ok
          cases ok
      | ok popped =>
          rw [taken] at ok
          cases ok
          exact ⟨rfl, rfl, popped.2, _, f.popInt_takes _ _ taken,
            Instr.mem_targets_of_route? rfl, rfl⟩
  | call _ | ret | retVoid => cases within
  | _ => cases switch

end Frame

/-- An instruction within a frame stays in its routine and keeps the locals. -/
theorem Frame.exec_eq (h : Hierarchy) (f g : Frame) (i : Instr Nat) (within : i.isLocal = true)
    (ok : f.exec h i = .ok g) :
    ∃ position stack, g = { f with position := position, stack := stack } := by
  cases straight : i.isStraight with
  | true =>
      obtain ⟨stack, rfl, -⟩ := f.exec_moves h i straight g ok
      exact ⟨f.position, stack, rfl⟩
  | false =>
      obtain ⟨-, -, k, target, ⟨stack, rfl, -⟩, -, rfl⟩ := f.exec_switch h g i within straight ok
      exact ⟨target, stack, rfl⟩

/-- A caller goes on where it stands. -/
theorem Frame.receive_eq (f g : Frame) (site : CallSite) (result : Option Operand)
    (ok : f.receive site result = .ok g) : ∃ stack, g = { f with stack := stack } := by
  unfold receive at ok
  split at ok
  · cases ok
    exact ⟨f.stack, rfl⟩
  · cases result with
    | none => cases ok
    | some operand =>
        cases ok
        exact ⟨operand :: f.stack, rfl⟩

/-- A call that is linked to a routine is a special call on the unit, which finds the routine. -/
theorem CodeUnit.find?_of_link? (u : CodeUnit) (site : CallSite) (r : Routine)
    (linked : u.link? site = some (.routine r)) :
    site.kind = .special ∧ site.owner = u.name ∧ u.find? site.name site.descriptor = some r := by
  unfold link? at linked
  cases kind : site.kind with
  | special =>
      simp only [kind] at linked
      obtain own | ⟨-, inherited⟩ := Option.or_eq_some_iff.mp linked
      · obtain ⟨found, find, same⟩ := Option.map_eq_some_iff.mp own
        cases same
        obtain ⟨owner, find⟩ := Option.ite_none_right_eq_some.mp find
        exact ⟨rfl, beq_iff_eq.mp owner, find⟩
      · obtain ⟨-, inherited⟩ := Option.ite_none_right_eq_some.mp inherited
        unfold inherited? at inherited
        split at inherited
        · cases inherited
        · split at inherited
          · cases inherited
          · cases inherited
  | virtual =>
      simp only [kind] at linked
      split at linked
      · cases linked
      · cases linked
  | static | interface =>
      simp only [kind] at linked
      cases linked

namespace Config

variable {callers : List Caller} {d : Config}

theorem resume_next (frame : Except Fault Frame) (next : resume frame callers = .next d) :
    ∃ g, frame = .ok g ∧ d = ⟨g, callers⟩ := by
  cases frame with
  | error fault => cases next
  | ok g =>
      cases next
      exact ⟨g, rfl, rfl⟩

theorem giveBack_next (result : Option Operand) (next : giveBack callers result = .next d) :
    ∃ caller rest g, callers = caller :: rest ∧
      caller.frame.receive caller.site result = .ok g ∧ d = ⟨g, rest⟩ := by
  cases callers with
  | nil => cases next
  | cons caller rest =>
      obtain ⟨g, received, same⟩ := resume_next _ next
      exact ⟨caller, rest, g, rfl, received, same⟩

/-- All frames of a configuration are as they should be. -/
structure Meets (c : Config) (runs : Frame → Prop) (waits : Caller → Prop) : Prop where
  frame : runs c.frame
  callers : ∀ caller ∈ c.callers, waits caller

theorem Meets.alone {f : Frame} {runs : Frame → Prop} {waits : Caller → Prop}
    (running : runs f) : Meets ⟨f, []⟩ runs waits :=
  ⟨running, fun _ waiting => absurd waiting List.not_mem_nil⟩

end Config

namespace Program

/-- One configuration is followed by another, in some world. -/
def Goes (p : Program) (c d : Config) : Prop := ∃ w v, p.step c w = (.next d, v)

/-- The configuration after so many steps, or the last one before the run ends. -/
def advance (p : Program) : Nat → Config → World → Config
  | 0, c, _ => c
  | steps + 1, c, w =>
      match p.step c w with
      | (.next d, v) => p.advance steps d v
      | _ => c

theorem goes_advance (p : Program) (steps : Nat) (c : Config) (w : World) :
    Relation.ReflTransGen p.Goes c (p.advance steps c w) := by
  induction steps generalizing c w with
  | zero => exact .refl
  | succ steps ih =>
      rw [advance]
      split
      · rename_i d v next
        exact .head ⟨w, v, next⟩ (ih d v)
      · exact .refl

/-- What a step from one configuration to another can be. The frame that runs goes on by itself, or
it makes a call that a routine of the unit takes up or that is answered within the step, or it hands
a result to the frame that waits for it. -/
inductive Moves (p : Program) : Config → Config → Prop
  | exec {f g : Frame} {i : Instr Nat} {callers : List Caller}
      (here : f.routine.code[f.position]? = some i) (within : i.isLocal = true)
      (ok : f.next.exec p.env.hierarchy i = .ok g) : Moves p ⟨f, callers⟩ ⟨g, callers⟩
  | enter {f g : Frame} {site : CallSite} {r : Routine} {receiver : Value} {args : List Operand}
      {callers : List Caller} (here : f.routine.code[f.position]? = some (.call site))
      (takes : f.next.Takes g site.operands) (count : args.length = site.sig.params.length)
      (linked : p.unit.link? site = some (.routine r)) :
      Moves p ⟨f, callers⟩
        ⟨{ routine := r, locals := .ref receiver :: args }, ⟨g, site⟩ :: callers⟩
  | answered {f g k : Frame} {site : CallSite} {result : Option Operand} {callers : List Caller}
      (here : f.routine.code[f.position]? = some (.call site))
      (takes : f.next.Takes g site.operands) (ok : g.receive site result = .ok k) :
      Moves p ⟨f, callers⟩ ⟨k, callers⟩
  | returned {f g : Frame} {caller : Caller} {result : Option Operand} {callers : List Caller}
      (ok : caller.frame.receive caller.site result = .ok g) :
      Moves p ⟨f, caller :: callers⟩ ⟨g, callers⟩

section Moves

variable {p : Program} {c d : Config} {callers : List Caller} {w v : World}

theorem answer_next {action : Exec (Option Operand)} {f : Frame} {site : CallSite}
    (next : answer action f site callers w = (.next d, v)) :
    ∃ result g, f.receive site result = .ok g ∧ d = ⟨g, callers⟩ := by
  rw [answer] at next
  generalize action w = outcome at next
  obtain ⟨fault | result, u⟩ := outcome
  · cases (Prod.mk.inj next).1
  · obtain ⟨g, received, same⟩ := Config.resume_next _ (Prod.mk.inj next).1
    exact ⟨result, g, received, same⟩

theorem moves_of_call {f : Frame} {site : CallSite}
    (here : f.routine.code[f.position]? = some (.call site))
    (next : p.call site f.next callers w = (.next d, v)) : p.Moves ⟨f, callers⟩ d := by
  rw [call] at next
  split at next
  · cases next
  · rename_i args g taken
    split at next
    · cases next
    · rename_i receiver k taken'
      have takes : f.next.Takes k site.operands :=
        (f.next.popArguments_takes g site args taken).trans
          (g.popReceiver_takes k site receiver taken')
      have answered {action : Exec (Option Operand)}
          (next : answer action k site callers w = (.next d, v)) : p.Moves ⟨f, callers⟩ d := by
        obtain ⟨result, g, received, rfl⟩ := answer_next next
        exact .answered here takes received
      rw [enter] at next
      split at next
      · rename_i r linked
        split at next
        · cases next
          exact .enter here takes (f.next.popArguments_length g site args taken) linked
        · cases next
      · exact answered next
      · exact answered next
      · exact answered next

theorem moves_of_next (next : p.step c w = (.next d, v)) : p.Moves c d := by
  obtain ⟨f, callers⟩ := c
  cases here : f.routine.code[f.position]? with
  | none =>
      rw [step] at next
      simp only [here] at next
      cases next
  | some i =>
      by_cases within : i.isLocal = true
      · rw [step_local i within f callers here] at next
        obtain ⟨g, ran, rfl⟩ := Config.resume_next _ (Prod.mk.inj next).1
        exact .exec here within ran
      · cases i with
        | call site =>
            rw [step_call site f callers here] at next
            exact moves_of_call here next
        | ret =>
            rw [step_ret f callers here] at next
            split at next
            · obtain ⟨caller, rest, g, rfl, received, rfl⟩ :=
                Config.giveBack_next _ (Prod.mk.inj next).1
              exact .returned received
            · cases next
        | retVoid =>
            rw [step_retVoid f callers here] at next
            obtain ⟨caller, rest, g, rfl, received, rfl⟩ :=
              Config.giveBack_next _ (Prod.mk.inj next).1
            exact .returned received
        | _ => exact absurd rfl within

end Moves

/-- Every way in which a frame comes to run or to wait leaves it as it should be. -/
structure Keeps (p : Program) (runs : Frame → Prop) (waits : Caller → Prop) : Prop where
  exec : ∀ (f g : Frame) (i : Instr Nat), runs f → f.routine.code[f.position]? = some i →
    i.isLocal = true → f.next.exec p.env.hierarchy i = .ok g → runs g
  call : ∀ (f g : Frame) (site : CallSite), runs f →
    f.routine.code[f.position]? = some (.call site) → f.next.Takes g site.operands →
    waits ⟨g, site⟩
  enter : ∀ (f : Frame) (site : CallSite) (r : Routine) (receiver : Value) (args : List Operand),
    runs f → f.routine.code[f.position]? = some (.call site) →
    args.length = site.sig.params.length → p.unit.link? site = some (.routine r) →
    runs { routine := r, locals := .ref receiver :: args }
  receive : ∀ (caller : Caller) (g : Frame) (result : Option Operand), waits caller →
    caller.frame.receive caller.site result = .ok g → runs g

namespace Keeps

variable {p : Program} {runs : Frame → Prop} {waits : Caller → Prop} {c d : Config}

theorem step (keeps : p.Keeps runs waits) (w v : World) (meets : c.Meets runs waits)
    (next : p.step c w = (.next d, v)) : d.Meets runs waits := by
  obtain ⟨running, waiting⟩ := meets
  cases moves_of_next next with
  | exec here within ok => exact ⟨keeps.exec _ _ _ running here within ok, waiting⟩
  | enter here takes count linked =>
      exact ⟨keeps.enter _ _ _ _ _ running here count linked,
        List.forall_mem_cons.mpr ⟨keeps.call _ _ _ running here takes, waiting⟩⟩
  | answered here takes ok =>
      exact ⟨keeps.receive ⟨_, _⟩ _ _ (keeps.call _ _ _ running here takes) ok, waiting⟩
  | returned ok =>
      obtain ⟨first, rest⟩ := List.forall_mem_cons.mp waiting
      exact ⟨keeps.receive _ _ _ first ok, rest⟩

theorem goes (keeps : p.Keeps runs waits) (meets : c.Meets runs waits)
    (run : Relation.ReflTransGen p.Goes c d) : d.Meets runs waits := by
  induction run with
  | refl => exact meets
  | tail _ goes ih =>
      obtain ⟨w, v, next⟩ := goes
      exact keeps.step w v ih next

end Keeps

/-- Every program keeps its frames in the routines of its unit. -/
theorem keeps_unit (p : Program) :
    p.Keeps (·.routine ∈ p.unit.routines) (·.frame.routine ∈ p.unit.routines) where
  exec f g i mem _ within ok := by
    obtain ⟨position, stack, rfl⟩ := f.next.exec_eq _ g i within ok
    exact mem
  call f g site mem _ taken := by
    obtain ⟨stack, rfl, -⟩ := taken
    exact mem
  enter _ site r _ _ _ _ _ linked :=
    Array.mem_of_find?_eq_some (p.unit.find?_of_link? site r linked).2.2
  receive caller g result mem ok := by
    obtain ⟨stack, rfl⟩ := caller.frame.receive_eq g caller.site result ok
    exact mem

/-- The step that a failing run fails in. -/
theorem run_failed (p : Program) (steps : Nat) (c : Config) (w v : World) (fault : Fault)
    (failed : p.run steps c w = (.failed fault, v)) :
    ∃ d u, Relation.ReflTransGen p.Goes c d ∧ w.Before u ∧ p.step d u = (.failed fault, v) := by
  induction steps generalizing c w with
  | zero => cases failed
  | succ steps ih =>
      rw [run] at failed
      split at failed
      · rename_i d u next
        obtain ⟨e, t, goes, before, step⟩ := ih d u failed
        have grows := p.step_records c w
        rw [next] at grows
        exact ⟨e, t, .head ⟨w, u, next⟩ goes, grows.trans before, step⟩
      · cases failed
      · rename_i same u step
        cases failed
        exact ⟨c, w, .refl, .refl w, step⟩

end Program

end TokenDispatch
