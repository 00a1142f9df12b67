import TokenDispatch.Contract
import TokenDispatch.Proofs.StackOrigins
import TokenDispatch.Proofs.StackRuns

/-!
Units that are assembled call by call. Every routine of a finished unit was written between the call
that began it and the call that ended it. If no label was placed blind, the routine is safe exactly
if its paths agree on what the assembler did not compare.
-/

namespace TokenDispatch

namespace Assembler

/-- A call on an assembler: for a new label, or of a directive. -/
inductive Call where
  | newLabel
  | perform (d : Directive Label)
deriving DecidableEq

def Call.act : Call → Emit Assembler Unit
  | newLabel => (fun _ => ()) <$> Emitter.fresh
  | perform d => Assembler.perform d

/-- Makes calls in their order, and takes the unit in the end. -/
def build (calls : List Call) : Emit Assembler CodeUnit := do
  calls.forM Call.act
  finish

end Assembler

open Assembler

/-- A routine that is open after some calls, with the depths that its instructions were added at,
and whether every label so far was placed where control comes by. -/
inductive OpenRoutine.Written (access : Access) (name : String) (sig : Signature) :
    List Call → OpenRoutine → List Nat → Bool → Prop
  | start : Written access name sig [] (.start access name sig) [] true
  | newLabel {body : List Call} {r : OpenRoutine} {depths : List Nat} {sighted : Bool}
      (written : Written access name sig body r depths sighted) :
      Written access name sig (body ++ [.newLabel]) r.newLabel.2 depths sighted
  | place {body : List Call} {r r' : OpenRoutine} {depths : List Nat} {sighted : Bool} {l : Label}
      (written : Written access name sig body r depths sighted)
      (extends_ : Extends r (.placeLabel l) r') :
      Written access name sig (body ++ [.perform (.placeLabel l)]) r' depths (sighted && r.sees l)
  | add {body : List Call} {r r' : OpenRoutine} {depths : List Nat} {sighted : Bool}
      {d : Directive Label} (written : Written access name sig body r depths sighted)
      (other : ∀ l, d ≠ .placeLabel l) (extends_ : Extends r d r') :
      Written access name sig (body ++ [.perform d]) r' (depths ++ [r.depth]) sighted

namespace OpenRoutine.Written

variable {access : Access} {name : String} {sig : Signature} {body : List Call} {r : OpenRoutine}
  {depths : List Nat} {sighted : Bool}

theorem tracks (written : Written access name sig body r depths sighted) : r.Tracks depths := by
  induction written with
  | start => exact .start access name sig
  | newLabel _ ih => exact ih.newLabel
  | place _ extends_ ih =>
      obtain ⟨l, same, unplaced, rfl⟩ | ⟨other, -⟩ := extends_.cases
      · exact ih.atLabel l unplaced
      · exact absurd rfl (other _)
  | add _ other extends_ ih =>
      obtain ⟨l, same, -⟩ | ⟨-, i, adds⟩ := extends_.cases
      · exact absurd same (other l)
      · exact ih.adds adds

theorem originates (written : Written access name sig body r depths sighted)
    (all : sighted = true) : r.Originates depths := by
  induction written with
  | start => exact .start access name sig
  | newLabel _ ih => exact (ih all).newLabel
  | @place _ r _ _ _ l written extends_ ih =>
      obtain ⟨before, sees⟩ := Bool.and_eq_true_iff.mp all
      obtain ⟨m, same, unplaced, rfl⟩ | ⟨other, -⟩ := extends_.cases
      · cases same
        exact (ih before).atLabel written.tracks l unplaced sees
      · exact absurd rfl (other _)
  | add written other extends_ ih =>
      obtain ⟨l, same, -⟩ | ⟨-, i, adds⟩ := extends_.cases
      · exact absurd same (other l)
      · exact (ih all).adds written.tracks adds

end OpenRoutine.Written

/-- A finished routine stems from an open one that some of the calls wrote, from the call that began
it to the call that ended it. -/
structure Routine.Stems (routine : Routine) (calls : List Call) (r : OpenRoutine)
    (depths : List Nat) (sighted : Bool) : Prop where
  segment : ∃ access name sig body, r.Written access name sig body depths sighted ∧
    .perform (.beginRoutine access name sig) :: body ++ [.perform .endRoutine] <:+: calls
  complete : r.Complete
  eq_finished : routine = r.finished

namespace Assembler

/-- What a call that succeeds does to an assembler. -/
inductive Takes (a : Assembler) : Call → Assembler → Prop
  | newLabel {r : OpenRoutine} (current : a.current = some r) :
      Takes a .newLabel { a with current := some r.newLabel.2 }
  | nowhere (closed : a.current = none) : Takes a .newLabel a
  | beginUnit {name base : String} (fresh : a.header = none) :
      Takes a (.perform (.beginUnit name base)) { a with header := some (name, base) }
  | beginRoutine {access : Access} {name : String} {sig : Signature} (begun : a.header ≠ none)
      (closed : a.current = none) (few : sig.params.length ≤ frameLimit) :
      Takes a (.perform (.beginRoutine access name sig))
        { a with current := some (.start access name sig) }
  | inner {d : Directive Label} {r r' : OpenRoutine} (inside : d.isInner = true)
      (current : a.current = some r) (extends_ : Extends r d r') :
      Takes a (.perform d) { a with current := some r' }
  | endRoutine {r : OpenRoutine} (current : a.current = some r) (ended : r.reachable = false)
      (resolved : ∀ i ∈ r.code, ∀ l ∈ i.targets, r.resolve l = .ok (r.position l))
      (once : a.routines.any (·.answersTo r.name r.sig.descriptor) = false) :
      Takes a (.perform .endRoutine)
        { a with routines := a.routines.push r.finished, current := none }

theorem takes_of_newLabel {a a' : Assembler} (h : Succeeds Call.newLabel.act a () a') :
    a.Takes .newLabel a' := by
  obtain ⟨label, fresh, -⟩ := (Succeeds.map_iff _ _ _ _ _).mp h
  cases current : a.current with
  | some r =>
      obtain ⟨-, rfl⟩ := (fresh_iff a a' label r current).mp fresh
      exact .newLabel current
  | none =>
      obtain ⟨header, routines, current'⟩ := a
      cases current
      cases (Prod.mk.inj fresh).2
      exact .nowhere rfl

theorem takes_of_inner {a a' : Assembler} (d : Directive Label) (inside : d.isInner = true)
    (h : Succeeds (Call.perform d).act a () a') : a.Takes (.perform d) a' := by
  obtain ⟨r, r', current, extends_, rfl⟩ := (perform_iff_extends d inside a a' ()).mp h
  exact .inner inside current extends_

theorem takes_of_succeeds {a a' : Assembler} {c : Call} (h : Succeeds c.act a () a') :
    a.Takes c a' := by
  cases c with
  | newLabel => exact takes_of_newLabel h
  | perform d =>
      cases d with
      | beginUnit name base =>
          obtain ⟨fresh, rfl⟩ := (beginUnit_iff name base a a' ()).mp h
          exact .beginUnit fresh
      | beginRoutine access name sig =>
          obtain ⟨⟨begun, closed, few⟩, rfl⟩ := (beginRoutine_iff access name sig a a' ()).mp h
          exact .beginRoutine begun closed few
      | endRoutine =>
          obtain ⟨r, current, ended, resolved, once, rfl⟩ := (endRoutine_iff a a' ()).mp h
          exact .endRoutine current ended resolved once
      | _ => exact takes_of_inner _ rfl h

/-- What is known of an assembler after some calls that succeeded. -/
structure After (calls : List Call) (a : Assembler) : Prop where
  started : a.current ≠ none → a.header ≠ none
  opened : ∀ r, a.current = some r → ∃ access name sig body depths sighted,
    r.Written access name sig body depths sighted ∧
      .perform (.beginRoutine access name sig) :: body <:+ calls
  closed : ∀ routine ∈ a.routines, ∃ r depths sighted, routine.Stems calls r depths sighted

namespace After

variable {calls : List Call} {a a' : Assembler}

theorem start : ({} : Assembler).After [] where
  started h := absurd rfl h
  opened _ h := nomatch h
  closed _ h := nomatch h

theorem closed_append (after : a.After calls) (c : Call) :
    ∀ routine ∈ a.routines, ∃ r depths sighted, routine.Stems (calls ++ [c]) r depths sighted := by
  intro routine mem
  obtain ⟨r, depths, sighted, ⟨access, name, sig, body, written, infix_⟩, complete, eq_finished⟩ :=
    after.closed routine mem
  refine ⟨r, depths, sighted, ⟨access, name, sig, body, written, ?_⟩, complete, eq_finished⟩
  exact infix_.trans (List.prefix_append calls [c]).isInfix

/-- A call that the open routine takes leaves it written by one call more. -/
theorem write (after : a.After calls) (c : Call) (r r' : OpenRoutine)
    (current : a.current = some r)
    (next : ∀ access name sig body depths sighted, r.Written access name sig body depths sighted →
      ∃ depths' sighted', r'.Written access name sig (body ++ [c]) depths' sighted') :
    After (calls ++ [c]) { a with current := some r' } where
  started _ := after.started (by simp [current])
  opened s same := by
    cases same
    obtain ⟨access, name, sig, body, depths, sighted, written, suffix_⟩ := after.opened r current
    obtain ⟨depths', sighted', written'⟩ := next access name sig body depths sighted written
    obtain ⟨before, whole⟩ := suffix_
    refine ⟨access, name, sig, body ++ [c], depths', sighted', written', before, ?_⟩
    rw [← whole]
    simp
  closed := after.closed_append c

theorem endRoutine (after : a.After calls) {r : OpenRoutine} (current : a.current = some r)
    (ended : r.reachable = false)
    (resolved : ∀ i ∈ r.code, ∀ l ∈ i.targets, r.resolve l = .ok (r.position l)) :
    After (calls ++ [.perform .endRoutine])
      { a with routines := a.routines.push r.finished, current := none } := by
  refine ⟨fun open_ => absurd rfl open_, nofun, fun routine mem => ?_⟩
  obtain old | rfl := Array.mem_push.mp mem
  · exact after.closed_append _ routine old
  · obtain ⟨access, name, sig, body, depths, sighted, written, before, whole⟩ :=
      after.opened r current
    refine ⟨r, depths, sighted, ⟨access, name, sig, body, written, before, [], ?_⟩,
      ⟨ended, ?_⟩, rfl⟩
    · rw [← whole]
      simp
    · exact fun i added l target => (r.resolve_ok_iff l _).mp (resolved i added l target)

theorem step (after : a.After calls) (c : Call) (h : Succeeds c.act a () a') :
    a'.After (calls ++ [c]) := by
  cases takes_of_succeeds h with
  | newLabel current =>
      refine after.write _ _ _ current fun _ _ _ _ depths sighted written => ?_
      exact ⟨depths, sighted, .newLabel written⟩
  | nowhere closed =>
      exact ⟨after.started, fun r open_ => (by rw [closed] at open_; cases open_),
        after.closed_append _⟩
  | beginUnit fresh =>
      have closed : a.current = none := by
        cases current : a.current with
        | none => rfl
        | some r => exact absurd fresh (after.started (by simp [current]))
      exact ⟨fun _ => nofun, fun r open_ => (by rw [closed] at open_; cases open_),
        after.closed_append _⟩
  | @beginRoutine access name sig begun closed few =>
      refine ⟨fun _ => begun, fun r open_ => ?_, after.closed_append _⟩
      cases open_
      exact ⟨access, name, sig, [], [], true, .start, calls, rfl⟩
  | inner inside current extends_ =>
      refine after.write _ _ _ current fun access name sig body depths sighted written => ?_
      obtain ⟨l, rfl, -⟩ | ⟨other, -⟩ := extends_.cases
      · exact ⟨depths, _, .place written extends_⟩
      · exact ⟨_, sighted, .add written other extends_⟩
  | endRoutine current ended resolved once => exact after.endRoutine current ended resolved

theorem steps (after : a.After calls) (more : List Call)
    (h : Succeeds (more.forM Call.act) a () a') : a'.After (calls ++ more) := by
  induction more generalizing calls a with
  | nil =>
      obtain ⟨-, rfl⟩ := (Succeeds.pure_iff _ _ _ _).mp h
      rw [List.append_nil]
      exact after
  | cons c more ih =>
      obtain ⟨_, b, first, rest⟩ := (Succeeds.bind_iff _ _ _ _ _).mp h
      have tail := ih (after.step c first) rest
      rw [List.append_assoc] at tail
      exact tail

end After

/-- Every routine of a unit that was assembled stems from an open routine. The depths that were
followed there are right, and the routine is safe, exactly if its paths agree on what was not
compared; so a routine none of whose labels was placed blind is safe exactly if they agree. A safe
routine finds its operands whenever it runs. -/
theorem stackSafe_iff_agrees (calls : List Call) (a : Assembler) (u : CodeUnit)
    (built : Succeeds (build calls) {} u a) :
    ∀ routine ∈ u.routines, ∃ r depths sighted, routine.Stems calls r depths sighted ∧
      (r.Agrees depths ↔ routine.StackSafe ∧ ∀ k d, routine.Arrives k d → depths[k]? = some d) ∧
      (sighted = true → (routine.StackSafe ↔ r.Agrees depths)) ∧
      (r.Agrees depths → routine.FindsOperands) := by
  obtain ⟨_, b, run, finished⟩ := (Succeeds.bind_iff _ _ _ _ _).mp built
  obtain ⟨name, base, -, -, rfl, -⟩ := (finish_iff b a u).mp finished
  have after := After.start.steps calls run
  intro routine mem
  obtain ⟨r, depths, sighted, stems⟩ := after.closed routine mem
  obtain ⟨access, routine_name, sig, body, written, -⟩ := stems.segment
  have tracks := written.tracks
  refine ⟨r, depths, sighted, stems, ?_⟩
  rw [stems.eq_finished]
  have exact_ := tracks.agrees_iff stems.complete
  refine ⟨exact_, fun all => ⟨fun safe => ?_, fun agrees => (exact_.mp agrees).1⟩,
    fun agrees => (exact_.mp agrees).1.findsOperands⟩
  exact tracks.agrees_of_attained safe ((written.originates all).arrives tracks stems.complete)

/-! Code that falls into a label with less on the stack than a branch brings there. -/

def logCall : CallSite :=
  { kind := .static, owner := "Log", name := "write", sig := ⟨[.object], .void⟩ }

def shallowFall : List Call :=
  [.perform (.beginUnit "Hand" Contract.defaultName),
    .perform (.beginRoutine .exported RoutineName.entry .dispatch),
    .newLabel,
    .newLabel,
    .perform (.loadLocal Slot.receiver),
    .perform (.loadLocal Slot.token),
    .perform (.lookupSwitch ⟨1⟩ [(1, ⟨0⟩)]),
    .perform (.placeLabel ⟨0⟩),
    .perform (.invoke logCall.kind logCall.owner logCall.name logCall.sig),
    .perform (.placeLabel ⟨1⟩),
    .perform (.ret .reference),
    .perform .endRoutine]

def shallowRoutine : Routine where
  access := .exported
  name := RoutineName.entry
  sig := .dispatch
  descriptor := Signature.dispatch.descriptor
  code := #[.loadLocal Slot.receiver, .loadLocal Slot.token, .lookupSwitch 4 [(1, 3)],
    .call logCall, .ret]
  maxStack := 2
  maxLocals := 4

theorem not_stackSafe_shallowRoutine : ¬ shallowRoutine.StackSafe := by
  intro safe
  have first : shallowRoutine.Arrives 1 1 :=
    .step (i := .loadLocal Slot.receiver) .start rfl (by decide) (.inl ⟨rfl, rfl⟩)
  have second : shallowRoutine.Arrives 2 2 :=
    .step (i := .loadLocal Slot.token) first rfl (by decide) (.inl ⟨rfl, rfl⟩)
  have third : shallowRoutine.Arrives 3 1 :=
    .step (i := .lookupSwitch 4 [(1, 3)]) second rfl (by decide) (.inr (by decide))
  have fallen : shallowRoutine.Arrives 4 0 :=
    .step (i := .call logCall) third rfl (by decide) (.inl ⟨rfl, rfl⟩)
  exact absurd (safe.pops_le 4 0 .ret fallen rfl) (by decide)

theorem stackSafe_iff_agrees_of_shallowFall :
    ∃ a, Succeeds (build shallowFall) {} ⟨"Hand", Contract.defaultName, #[shallowRoutine]⟩ a ∧
      ∃ r depths sighted, shallowRoutine.Stems shallowFall r depths sighted ∧
        ¬ r.Agrees depths := by
  have built := Succeeds.of_toOption (build shallowFall) {}
    ⟨"Hand", Contract.defaultName, #[shallowRoutine]⟩ (by decide +kernel)
  obtain ⟨r, depths, sighted, stems, exact_, -⟩ :=
    stackSafe_iff_agrees shallowFall _ _ built shallowRoutine (by simp)
  exact ⟨_, built, r, depths, sighted, stems,
    fun agrees => not_stackSafe_shallowRoutine (exact_.mp agrees).1⟩

end Assembler

end TokenDispatch
