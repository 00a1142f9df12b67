import TokenDispatch.Proofs.ControlFlow
import TokenDispatch.Proofs.FailedCalls
import TokenDispatch.Proofs.UnitLayout

/-!
What every finished unit is like, whatever calls led to it and however many of them failed. A
routine that was ended is closed: its last instruction ends a block, and its branches stay within
its code. So no run ever comes behind the last instruction of a routine.
-/

namespace TokenDispatch

namespace Edit

/-- The keys never descend. -/
def Sorted (cases : List (Int32 × Label)) : Prop := cases.Pairwise fun c d => c.1 ≤ d.1

theorem sorted_insertCase (first : Int32 × Label) (cases : List (Int32 × Label))
    (sorted : Sorted cases) : Sorted (insertCase first cases) := by
  induction cases with
  | nil => exact List.pairwise_singleton _ _
  | cons next rest ih =>
      obtain ⟨least, tail⟩ := List.pairwise_cons.mp sorted
      rw [insertCase]
      split
      · rename_i le
        refine List.pairwise_cons.mpr ⟨fun c mem => ?_, sorted⟩
        obtain rfl | later := List.mem_cons.mp mem
        · exact le
        · exact Int32.le_trans le (least c later)
      · rename_i above
        have le := (Int32.le_total next.1 first.1).resolve_right above
        refine List.pairwise_cons.mpr ⟨fun c mem => ?_, ih tail⟩
        obtain rfl | later := (mem_insertCase_iff c first rest).mp mem
        · exact le
        · exact least c later

theorem sorted_sortCases (cases : List (Int32 × Label)) : Sorted (sortCases cases) := by
  induction cases with
  | nil => exact .nil
  | cons first rest ih => exact sorted_insertCase first _ ih

/-- Where no key follows itself, keys that never descend ascend. -/
theorem ascending_of_sorted (cases : List (Int32 × Label)) (sorted : Sorted cases)
    (distinct : repeated? cases = none) : (cases.map (·.1)).Pairwise (· < ·) := by
  rw [List.pairwise_map]
  induction sorted with
  | nil => exact .nil
  | @cons first rest least sorted ih =>
      cases rest with
      | nil => exact List.pairwise_singleton _ _
      | cons next rest =>
          rw [repeated?] at distinct
          split at distinct
          · cases distinct
          · rename_i other
            have lt := Int32.lt_of_le_of_ne (least next (.head _)) other
            refine .cons (fun c mem => ?_) (ih distinct)
            obtain rfl | later := List.mem_cons.mp mem
            · exact lt
            · exact Int32.lt_of_lt_of_le lt ((List.pairwise_cons.mp sorted).1 c later)

end Edit

namespace Instr

variable {τ ρ : Type}

/-- What a routine with so many locals and such a signature asks of its instructions. -/
def Fits (maxLocals : Nat) (sig : Signature) : Instr τ → Prop
  | loadLocal slot => slot < maxLocals
  | call site => site.descriptor = site.sig.descriptor
  | ret => sig.ret.isReference = true
  | retVoid => sig.returnsVoid = true
  | lookupSwitch _ cases => (cases.map (·.1)).Pairwise (· < ·)
  | _ => True

theorem fits_map_iff (g : τ → ρ) (maxLocals : Nat) (sig : Signature) (i : Instr τ) :
    (i.map g).Fits maxLocals sig ↔ i.Fits maxLocals sig := by
  cases i with
  | lookupSwitch default cases => simp [map, Fits, Function.comp_def]
  | _ => exact Iff.rfl

end Instr

/-- A routine that control can only leave by a return. -/
structure Routine.WellFormed (r : Routine) : Prop where
  descriptor_eq : r.descriptor = r.sig.descriptor
  fits : ∀ i ∈ r.code, i.Fits r.maxLocals r.sig
  closed : ∃ i, r.code.back? = some i ∧ i.endsBlock = true
  targets_lt : ∀ i ∈ r.code, ∀ target ∈ i.targets, target < r.code.size

/-- A unit whose routines are well formed and answer to different calls. -/
structure CodeUnit.WellFormed (u : CodeUnit) : Prop where
  distinct : (u.routines.toList.map fun r => (r.name, r.descriptor)).Nodup
  routines : ∀ r ∈ u.routines, r.WellFormed

theorem DistinctRoutines.nodup {routines : Array Routine} (distinct : DistinctRoutines routines) :
    (routines.toList.map fun r => (r.name, r.descriptor)).Nodup := by
  rw [List.nodup_iff_pairwise_ne, List.pairwise_map]
  refine List.Pairwise.imp (fun {r s} apart same => ?_) distinct
  rw [Routine.answersTo, (Prod.mk.inj same).1, (Prod.mk.inj same).2] at apart
  simp at apart

/-! Open routines. -/

/-- What holds of a routine while it is open, also once some calls have failed. -/
structure OpenRoutine.Sound (r : OpenRoutine) : Prop where
  bounded : r.Bounded
  fits : ∀ i ∈ r.code, i.Fits r.maxLocals r.sig

namespace OpenRoutine.Sound

open Assembler

variable {r r' : OpenRoutine}

theorem start (access : Access) (name : String) (sig : Signature) :
    (OpenRoutine.start access name sig).Sound where
  bounded := .start access name sig
  fits _ mem := nomatch mem

theorem newLabel (sound : r.Sound) : r.newLabel.2.Sound where
  bounded := sound.bounded.newLabel
  fits := sound.fits

/-- A call that fails may change what is known of depths, and nothing that matters here. -/
theorem retains (sound : r.Sound) (retains : r.Retains r') : r'.Sound := by
  obtain ⟨depth, entryDepth, rfl⟩ := retains
  exact ⟨⟨sound.bounded.bound_le, sound.bounded.ended⟩, sound.fits⟩

theorem fits_of_permits {d : Directive Label} {i : Instr Label} (instr : d.instr? = some i)
    (permits : r.Permits i) : i.Fits r.maxLocals r.sig := by
  cases d with
  | loadLocal _ =>
      cases instr
      exact permits
  | invoke _ _ _ _ =>
      cases instr
      exact Eq.refl _
  | ret kind =>
      cases kind <;> cases instr
      · exact permits
      · exact permits
  | pushInt _ | pushNull | arrayLoad | unbox _ | checkCast _ | box _ =>
      cases instr
      trivial
  | _ => cases instr

theorem fits_push (sound : r.Sound) (i : Instr Label) (fits : i.Fits r.maxLocals r.sig) :
    ∀ j ∈ r.code.push i, j.Fits r.maxLocals r.sig := by
  intro j mem
  obtain old | rfl := Array.mem_push.mp mem
  · exact sound.fits j old
  · exact fits

theorem extends_ (sound : r.Sound) {d : Directive Label} (h : Extends r d r') : r'.Sound where
  bounded := by
    obtain ⟨l, -, unplaced, rfl⟩ | ⟨-, i, adds⟩ := h.cases
    · exact sound.bounded.atLabel l unplaced
    · exact sound.bounded.adds adds
  fits := by
    cases h with
    | @instruct d i instr accepts =>
        exact sound.fits_push i (fits_of_permits instr accepts.permitted)
    | placeLabel _ => exact sound.fits
    | @lookupSwitch default cases _ _ _ distinct =>
        exact sound.fits_push _
          (Edit.ascending_of_sorted _ (Edit.sorted_sortCases cases) distinct)
    | tableSwitch _ _ _ _ => exact sound.fits_push _ trivial

/-- Labels that branches lead to are bound within the code, and none of them behind it. -/
theorem finished (sound : r.Sound) (ended : r.reachable = false)
    (resolved : ∀ i ∈ r.code, ∀ l ∈ i.targets, r.resolve l = .ok (r.position l)) :
    r.finished.WellFormed where
  descriptor_eq := rfl
  fits j mem := by
    obtain ⟨i, added, rfl⟩ := Array.mem_map.mp mem
    exact (Instr.fits_map_iff _ _ _ i).mpr (sound.fits i added)
  closed := by
    obtain ⟨⟨i, last, ends⟩, -⟩ := sound.bounded.ended ended
    refine ⟨i.map r.position, ?_, (i.endsBlock_map _).trans ends⟩
    rw [OpenRoutine.finished, Array.back?_map, last]
    rfl
  targets_lt j mem target among := by
    obtain ⟨i, added, rfl⟩ := Array.mem_map.mp mem
    rw [Instr.targets_map] at among
    obtain ⟨l, branch, rfl⟩ := List.mem_map.mp among
    have bound := (r.resolve_ok_iff l _).mp (resolved i added l branch)
    have free := (sound.bounded.ended ended).2
    rw [OpenRoutine.finished, Array.size_map]
    refine Nat.lt_of_le_of_ne (sound.bounded.bound_le l _ bound) fun same => free ⟨l, ?_⟩
    rw [bound, same]

end OpenRoutine.Sound

namespace Assembler

/-- Makes calls in their order, and goes on where one fails. -/
def drive (a : Assembler) (calls : List Call) : Assembler :=
  calls.foldl (fun a c => (c.act a : Except EmitError Unit × Assembler).2) a

/-- What holds of an assembler after any calls. -/
structure Sound (a : Assembler) : Prop where
  opened : ∀ r, a.current = some r → r.Sound
  closed : ∀ r ∈ a.routines, r.WellFormed
  distinct : DistinctRoutines a.routines

namespace Sound

variable {a a' : Assembler}

theorem start : ({} : Assembler).Sound where
  opened _ h := nomatch h
  closed _ h := nomatch h
  distinct := .nil

theorem leave (sound : a.Sound) : { a with current := none }.Sound where
  opened _ h := nomatch h
  closed := sound.closed
  distinct := sound.distinct

theorem open_ (sound : a.Sound) {r : OpenRoutine} (h : r.Sound) :
    { a with current := some r }.Sound where
  opened _ same := by
    cases same
    exact h
  closed := sound.closed
  distinct := sound.distinct

theorem endRoutine (sound : a.Sound) {r : OpenRoutine} (current : a.current = some r)
    (ended : r.reachable = false)
    (resolved : ∀ i ∈ r.code, ∀ l ∈ i.targets, r.resolve l = .ok (r.position l))
    (once : a.routines.any (·.answersTo r.name r.sig.descriptor) = false) :
    Sound { a with routines := a.routines.push r.finished, current := none } := by
  refine ⟨nofun, fun s mem => ?_, sound.distinct.push r.finished once⟩
  obtain old | rfl := Array.mem_push.mp mem
  · exact sound.closed s old
  · exact (sound.opened r current).finished ended resolved

theorem takes (sound : a.Sound) {c : Call} (h : a.Takes c a') : a'.Sound := by
  cases h with
  | newLabel current => exact sound.open_ (sound.opened _ current).newLabel
  | nowhere _ => exact sound
  | beginUnit _ => exact ⟨sound.opened, sound.closed, sound.distinct⟩
  | beginRoutine _ _ _ => exact sound.open_ (.start _ _ _)
  | inner _ current extends_ => exact sound.open_ ((sound.opened _ current).extends_ extends_)
  | endRoutine current ended resolved once => exact sound.endRoutine current ended resolved once

theorem leaves (sound : a.Sound) {c : Call} (h : a.Leaves c a') : a'.Sound := by
  cases h with
  | unchanged _ => exact sound
  | retained _ current retains => exact sound.open_ ((sound.opened _ current).retains retains)
  | dropped => exact sound.leave

theorem step (sound : a.Sound) (c : Call) :
    (c.act a : Except EmitError Unit × Assembler).2.Sound := by
  obtain ⟨-, takes⟩ | ⟨-, leaves⟩ := a.act_cases c
  · exact sound.takes takes
  · exact sound.leaves leaves

theorem drive (sound : a.Sound) (calls : List Call) : (a.drive calls).Sound := by
  induction calls generalizing a with
  | nil => exact sound
  | cons c calls ih => exact ih (sound.step c)

end Sound

end Assembler

/-! Runs. -/

/-- The code goes on behind an instruction that does not end a block. -/
theorem Routine.WellFormed.next_lt {r : Routine} (formed : r.WellFormed) {k : Nat} {i : Instr Nat}
    (here : r.code[k]? = some i) (plain : i.endsBlock = false) : k + 1 < r.code.size := by
  obtain ⟨lt, -⟩ := Array.getElem?_eq_some_iff.mp here
  refine Nat.lt_of_le_of_ne lt fun last => ?_
  obtain ⟨j, back, ends⟩ := formed.closed
  rw [Array.back?_eq_getElem?, ← last, Nat.add_sub_cancel, here] at back
  cases back
  exact absurd (plain.symm.trans ends) (by decide)

theorem Routine.WellFormed.size_pos {r : Routine} (formed : r.WellFormed) : 0 < r.code.size := by
  obtain ⟨i, back, -⟩ := formed.closed
  rw [Array.back?_eq_getElem?] at back
  exact Nat.zero_lt_of_lt (Array.getElem?_eq_some_iff.mp back).1

/-- A frame that stands at an instruction of a well formed routine. -/
structure Frame.Inside (f : Frame) : Prop where
  formed : f.routine.WellFormed
  lt_size : f.position < f.routine.code.size

namespace Program

variable {p : Program}

theorem keeps_inside (formed : p.unit.WellFormed) :
    p.Keeps Frame.Inside (·.frame.Inside) where
  exec f g i inside here within ok := by
    cases straight : i.isStraight with
    | true =>
        obtain ⟨stack, rfl, -⟩ := f.next.exec_moves _ i straight g ok
        exact ⟨inside.formed, inside.formed.next_lt here (i.endsBlock_of_isStraight straight)⟩
    | false =>
        obtain ⟨-, -, k, target, ⟨stack, rfl, -⟩, branch, rfl⟩ :=
          f.next.exec_switch _ g i within straight ok
        exact ⟨inside.formed,
          inside.formed.targets_lt i (Array.mem_of_getElem? here) target branch⟩
  call f g site inside here taken := by
    obtain ⟨stack, rfl, -⟩ := taken
    exact ⟨inside.formed, inside.formed.next_lt here rfl⟩
  enter _ site r _ _ _ _ _ linked := by
    have found := (p.unit.find?_of_link? site r linked).2.2
    have formed := formed.routines r (Array.mem_of_find?_eq_some found)
    exact ⟨formed, formed.size_pos⟩
  receive caller g result inside ok := by
    obtain ⟨stack, rfl⟩ := caller.frame.receive_eq g caller.site result ok
    exact ⟨inside.formed, inside.lt_size⟩

/-- Whatever a run of a well formed unit comes to, there is an instruction to go on with. -/
theorem goes_inside (formed : p.unit.WellFormed) (r : Routine) (mem : r ∈ p.unit.routines)
    (locals : List Operand) (c : Config)
    (run : Relation.ReflTransGen p.Goes ⟨{ routine := r, locals := locals }, []⟩ c) :
    ∃ i, c.frame.routine.code[c.frame.position]? = some i := by
  have start := formed.routines r mem
  have meets := (keeps_inside formed).goes (.alone ⟨start, start.size_pos⟩) run
  exact ⟨_, Array.getElem?_eq_getElem meets.frame.lt_size⟩

/-- Such a run never ends for want of an instruction; a fault that says so comes from outside. -/
theorem run_inside (formed : p.unit.WellFormed) (r : Routine) (mem : r ∈ p.unit.routines)
    (steps : Nat) (locals : List Operand) (w v : World) (name : String)
    (failed : p.runRoutine steps r locals w = (.failed (.internal (.endOfRoutine name)), v)) :
    ∃ u, w.Before u ∧ u.EndsIn v (.internal (.endOfRoutine name)) := by
  obtain ⟨c, u, goes, before, step⟩ := p.run_failed steps _ w v _ failed
  obtain ⟨i, here⟩ := goes_inside formed r mem locals c goes
  obtain raised | ended | ⟨site, -, -, -, other⟩ := step_failed rfl c step
  · exact ⟨u, before, raised⟩
  · cases here.symm.trans ended
  · cases other

end Program

namespace Assembler

/-- Whatever calls were made on a new assembler, and whichever of them failed, a unit that it
finishes is well formed. A run of one of its routines always finds an instruction to go on with, so
a fault that says otherwise was raised outside. -/
theorem finish_wellFormed (calls : List Call) (u : CodeUnit) (a : Assembler)
    (finished : Succeeds finish (drive {} calls) u a) :
    u.WellFormed ∧ ∀ p : Program, p.unit = u → ∀ r ∈ u.routines, ∀ locals : List Operand,
      (∀ c, Relation.ReflTransGen p.Goes ⟨{ routine := r, locals := locals }, []⟩ c →
        ∃ i, c.frame.routine.code[c.frame.position]? = some i) ∧
      ∀ (steps : Nat) (w v : World) (name : String),
        p.runRoutine steps r locals w = (.failed (.internal (.endOfRoutine name)), v) →
        ∃ x, w.Before x ∧ x.EndsIn v (.internal (.endOfRoutine name)) := by
  obtain ⟨name, base, -, -, rfl, -⟩ := (finish_iff (drive {} calls) a u).mp finished
  have sound := Sound.start.drive calls
  have formed : CodeUnit.WellFormed ⟨name, base, (drive {} calls).routines⟩ :=
    ⟨sound.distinct.nodup, sound.closed⟩
  refine ⟨formed, fun p unit_eq r mem locals => ?_⟩
  rw [← unit_eq] at formed mem
  exact ⟨Program.goes_inside formed r mem locals,
    fun steps w v name => Program.run_inside formed r mem steps locals w v name⟩

/-! A unit that was finished in spite of calls that failed, on a base that reports the fault. -/

/-- Among these calls one has a key twice, one a slot that is not there, one routine falls off its
end, and one is there already. -/
def stumbling : List Call :=
  [.perform (.beginUnit "Hand" Contract.defaultName),
    .perform (.beginRoutine .exported RoutineName.entry .dispatch),
    .newLabel,
    .newLabel,
    .perform (.loadLocal Slot.token),
    .perform (.lookupSwitch ⟨1⟩ [(7, ⟨0⟩), (7, ⟨1⟩)]),
    .perform (.loadLocal 4),
    .perform (.loadLocal Slot.token),
    .perform (.lookupSwitch ⟨1⟩ [(7, ⟨0⟩), (-7, ⟨1⟩)]),
    .perform (.placeLabel ⟨0⟩),
    .perform (.loadLocal Slot.self),
    .perform (.loadLocal Slot.token),
    .perform (.loadLocal Slot.receiver),
    .perform (.loadLocal Slot.arguments),
    .perform (.invoke .virtual "Hand" RoutineName.fallback .dispatch),
    .perform (.ret .reference),
    .perform (.placeLabel ⟨1⟩),
    .perform .pushNull,
    .perform (.ret .reference),
    .perform .endRoutine,
    .perform (.beginRoutine .internal "left" .dispatch),
    .perform .endRoutine,
    .perform (.beginRoutine .internal RoutineName.entry .dispatch),
    .perform .pushNull,
    .perform (.ret .reference),
    .perform .endRoutine]

def stumbledRoutine : Routine where
  access := .exported
  name := RoutineName.entry
  sig := .dispatch
  descriptor := Signature.dispatch.descriptor
  code := #[.loadLocal Slot.token, .loadLocal Slot.token, .lookupSwitch 9 [(-7, 9), (7, 3)],
    .loadLocal Slot.self, .loadLocal Slot.token, .loadLocal Slot.receiver,
    .loadLocal Slot.arguments,
    .call { kind := .virtual, owner := "Hand", name := RoutineName.fallback, sig := .dispatch },
    .ret, .pushNull, .ret]
  maxStack := 4
  maxLocals := 4

def endless : Contract where
  fallback _ _ _ heap := (.error (.internal (.endOfRoutine "base")), heap)

theorem finish_wellFormed_of_stumbling :
    ∃ a, Succeeds finish (drive {} stumbling) ⟨"Hand", Contract.defaultName, #[stumbledRoutine]⟩ a ∧
      CodeUnit.WellFormed ⟨"Hand", Contract.defaultName, #[stumbledRoutine]⟩ ∧
      ∃ x v, Program.runRoutine
          ⟨⟨"Hand", Contract.defaultName, #[stumbledRoutine]⟩, {}, endless⟩ 8 stumbledRoutine
          [.ref .null, .int 7, .ref .null, .ref .null] {} =
            (.failed (.internal (.endOfRoutine "base")), v) ∧
        World.EndsIn x v (.internal (.endOfRoutine "base")) := by
  let u : CodeUnit := ⟨"Hand", Contract.defaultName, #[stumbledRoutine]⟩
  have finished := Succeeds.of_toOption finish (drive {} stumbling) u (by decide +kernel)
  obtain ⟨formed, runs⟩ := finish_wellFormed stumbling u _ finished
  obtain ⟨-, raises⟩ := runs ⟨u, {}, endless⟩ rfl stumbledRoutine (Array.mem_singleton.mpr rfl)
    [.ref .null, .int 7, .ref .null, .ref .null]
  have failed : Program.runRoutine ⟨u, {}, endless⟩ 8 stumbledRoutine
      [.ref .null, .int 7, .ref .null, .ref .null] {} =
        (.failed (.internal (.endOfRoutine "base")), (Program.runRoutine ⟨u, {}, endless⟩ 8
          stumbledRoutine [.ref .null, .int 7, .ref .null, .ref .null] {}).2) := Prod.ext rfl rfl
  obtain ⟨x, -, raised⟩ := raises 8 {} _ "base" failed
  exact ⟨_, finished, formed, x, _, failed, raised⟩

end Assembler

end TokenDispatch
