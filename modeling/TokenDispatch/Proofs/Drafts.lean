import Mathlib.Data.List.Forall2
import TokenDispatch.Proofs.RoutineGroups
import TokenDispatch.Proofs.WellFormed

/-!
What a script asks for and what it gets. A draft is read off the calls alone and off which of them
succeeded: how a routine begins, and the successful calls up to its end. The routines of a unit are
the drafts whose end succeeded, in their order, so nothing else that a failing call does matters.
-/

namespace TokenDispatch

namespace Assembler

/-- A call that was made, and whether it succeeded. -/
structure Attempt where
  call : Call
  ok : Bool

/-- What comes of the calls of a script, made in their order whether they fail or not. -/
def attempts (a : Assembler) : List Call → List Attempt
  | [] => []
  | c :: calls =>
      ⟨c, (c.act a : Except EmitError Unit × Assembler).1.isOk⟩ ::
        attempts (c.act a : Except EmitError Unit × Assembler).2 calls

namespace Call

/-- The instruction that a call asks for, with its labels. -/
def instr? : Call → Option (Instr Label)
  | perform (.lookupSwitch default cases) => some (.lookupSwitch default (Edit.sortCases cases))
  | perform (.tableSwitch low default targets) => some (.tableSwitch low default targets)
  | perform d => d.instr?
  | newLabel => none

/-- The routine that a call asks to begin. -/
def heading? : Call → Option Heading
  | perform (.beginRoutine access name sig) => some ⟨access, name, sig⟩
  | _ => none

/-- A call inside a routine neither begins nor ends one. -/
theorem plain_of_isInner (d : Directive Label) (inside : d.isInner = true) :
    (perform d).endsRoutine = false ∧ (perform d).heading? = none := by
  cases d with
  | beginUnit _ _ | beginRoutine _ _ _ | endRoutine => cases inside
  | _ => exact ⟨rfl, rfl⟩

theorem instr?_of_directive {d : Directive Label} {i : Instr Label} (h : d.instr? = some i) :
    (perform d).instr? = some i := by
  cases d with
  | lookupSwitch _ _ | tableSwitch _ _ _ => cases h
  | _ => exact h

theorem instr?_cases {d : Directive Label} {i : Instr Label} (h : (perform d).instr? = some i) :
    d.instr? = some i ∨ (∃ default cases, d = .lookupSwitch default cases) ∨
      ∃ low default targets, d = .tableSwitch low default targets := by
  cases d with
  | lookupSwitch default cases => exact .inr (.inl ⟨default, cases, rfl⟩)
  | tableSwitch low default targets => exact .inr (.inr ⟨low, default, targets, rfl⟩)
  | _ => exact .inl h

end Call

end Assembler

open Assembler

/-- A routine that a script asks for: how it begins, and the calls that succeed in it. -/
structure Draft where
  heading : Heading
  calls : List Call := []
deriving DecidableEq

namespace Draft

variable {d : Draft} {r r' : OpenRoutine}

def code (d : Draft) : List (Instr Label) := d.calls.filterMap Call.instr?

/-- A directive succeeded when the routine had so many instructions. -/
def PerformsAt (d : Draft) (position : Nat) (directive : Directive Label) : Prop :=
  ∃ before after, d.calls = before ++ .perform directive :: after ∧
    (before.filterMap Call.instr?).length = position

/-- A finished routine is as it was drafted: each label of its code has been replaced by the number
of instructions there were when the label was placed, which it was but once. -/
structure Becomes (d : Draft) (r : Routine) : Prop where
  access_eq : r.access = d.heading.access
  name_eq : r.name = d.heading.name
  sig_eq : r.sig = d.heading.sig
  descriptor_eq : r.descriptor = d.heading.sig.descriptor
  code : ∃ position : Label → Nat, r.code.toList = d.code.map (Instr.map position) ∧
    ∀ i ∈ d.code, ∀ l ∈ i.targets, d.PerformsAt (position l) (.placeLabel l)
  placed_once : ∀ (l : Label) (p q : Nat), d.PerformsAt p (.placeLabel l) →
    d.PerformsAt q (.placeLabel l) → p = q

/-- An open routine that the calls of a draft have led to. -/
structure Describes (d : Draft) (r : OpenRoutine) : Prop where
  access_eq : r.access = d.heading.access
  name_eq : r.name = d.heading.name
  sig_eq : r.sig = d.heading.sig
  code_eq : r.code.toList = d.code
  placed_iff : ∀ (l : Label) (p : Nat),
    r.placed[l.id]? = some (some p) ↔ d.PerformsAt p (.placeLabel l)

def add (d : Draft) (c : Call) : Draft := { d with calls := d.calls ++ [c] }

theorem code_add (d : Draft) (c : Call) : (d.add c).code = d.code ++ c.instr?.toList := by
  rw [code, code, add, List.filterMap_append]
  cases instr : c.instr? <;> simp [instr]

theorem performsAt_add_iff (d : Draft) (c : Call) (p : Nat) (directive : Directive Label) :
    (d.add c).PerformsAt p directive ↔
      d.PerformsAt p directive ∨ c = .perform directive ∧ d.code.length = p := by
  constructor
  · rintro ⟨before, after, split, length⟩
    obtain rfl | ⟨middle, last, rfl⟩ := List.eq_nil_or_concat after
    · obtain ⟨rfl, same⟩ := List.append_inj' split rfl
      cases same
      exact .inr ⟨rfl, length⟩
    · rw [List.concat_eq_append, ← List.cons_append, ← List.append_assoc] at split
      obtain ⟨calls, -⟩ := List.append_inj' split rfl
      exact .inl ⟨before, middle, calls, length⟩
  · rintro (⟨before, after, calls, length⟩ | ⟨rfl, length⟩)
    · exact ⟨before, after ++ [c], by simp [add, calls], length⟩
    · exact ⟨d.calls, [], rfl, length⟩

/-- A call that places no label leaves labels where they are. -/
theorem performsAt_place_add_iff (d : Draft) {c : Call} (other : ∀ l, c ≠ .perform (.placeLabel l))
    (p : Nat) (l : Label) :
    (d.add c).PerformsAt p (.placeLabel l) ↔ d.PerformsAt p (.placeLabel l) := by
  rw [performsAt_add_iff]
  exact or_iff_left fun h => other l h.1

namespace Describes

theorem start (access : Access) (name : String) (sig : Signature) :
    (⟨⟨access, name, sig⟩, []⟩ : Draft).Describes (.start access name sig) where
  access_eq := rfl
  name_eq := rfl
  sig_eq := rfl
  code_eq := rfl
  placed_iff l p := by
    constructor
    · intro bound
      cases bound
    · rintro ⟨before, after, split, -⟩
      simp at split

/-- A failing call leaves what a draft speaks of. -/
theorem retains (describes : d.Describes r) (retains : r.Retains r') : d.Describes r' := by
  obtain ⟨depth, entryDepth, rfl⟩ := retains
  exact ⟨describes.access_eq, describes.name_eq, describes.sig_eq, describes.code_eq,
    describes.placed_iff⟩

/-- A call that neither adds to the code nor places a label. -/
theorem idle (describes : d.Describes r) {c : Call} (plain : c.instr? = none)
    (other : ∀ l, c ≠ .perform (.placeLabel l)) : (d.add c).Describes r where
  access_eq := describes.access_eq
  name_eq := describes.name_eq
  sig_eq := describes.sig_eq
  code_eq := by
    rw [describes.code_eq, d.code_add, plain]
    exact (List.append_nil _).symm
  placed_iff l p := by
    rw [describes.placed_iff]
    exact (d.performsAt_place_add_iff other p l).symm

theorem newLabel (describes : d.Describes r) : (d.add .newLabel).Describes r.newLabel.2 := by
  have same := describes.idle (c := .newLabel) rfl nofun
  exact ⟨same.access_eq, same.name_eq, same.sig_eq, same.code_eq,
    fun l p => (r.placed_newLabel_iff l.id p).trans (same.placed_iff l p)⟩

theorem code_push (describes : d.Describes r) {c : Call} {i : Instr Label}
    (instr : c.instr? = some i) : (r.code.push i).toList = (d.add c).code := by
  rw [Array.toList_push, describes.code_eq, d.code_add, instr]
  rfl

theorem atLabel (describes : d.Describes r) (l : Label) (unplaced : r.placed[l.id]? = some none) :
    (d.add (.perform (.placeLabel l))).Describes (r.atLabel l) where
  access_eq := describes.access_eq
  name_eq := describes.name_eq
  sig_eq := describes.sig_eq
  code_eq := by
    rw [d.code_add]
    exact describes.code_eq.trans (List.append_nil _).symm
  placed_iff m p := by
    rw [r.placed_atLabel l unplaced, performsAt_add_iff, ← describes.placed_iff]
    by_cases same : l = m
    · subst same
      rw [if_pos rfl, unplaced, ← describes.code_eq, Array.length_toList]
      simp
    · have apart : l.id ≠ m.id := fun ids => same (by cases l; cases m; cases ids; rfl)
      rw [if_neg apart]
      refine (or_iff_left fun h => same ?_).symm
      cases h.1
      rfl

theorem extends_ (describes : d.Describes r) {directive : Directive Label}
    (h : Extends r directive r') : (d.add (.perform directive)).Describes r' := by
  have placed (other : ∀ l, directive ≠ .placeLabel l) (l : Label) (p : Nat) :
      r.placed[l.id]? = some (some p) ↔
        (d.add (.perform directive)).PerformsAt p (.placeLabel l) := by
    refine (describes.placed_iff l p).trans (d.performsAt_place_add_iff (fun l same => ?_) p l).symm
    cases same
    exact other l rfl
  cases h with
  | instruct instr accepts =>
      refine ⟨describes.access_eq, describes.name_eq, describes.sig_eq,
        describes.code_push (Call.instr?_of_directive instr), placed fun l same => ?_⟩
      rw [same] at instr
      cases instr
  | placeLabel unplaced => exact describes.atLabel _ unplaced
  | lookupSwitch _ _ _ _ | tableSwitch _ _ _ _ =>
      exact ⟨describes.access_eq, describes.name_eq, describes.sig_eq, describes.code_push rfl,
        placed nofun⟩

theorem finished (describes : d.Describes r)
    (resolved : ∀ i ∈ r.code, ∀ l ∈ i.targets, r.resolve l = .ok (r.position l)) :
    d.Becomes r.finished where
  access_eq := describes.access_eq
  name_eq := describes.name_eq
  sig_eq := describes.sig_eq
  descriptor_eq := congrArg Signature.descriptor describes.sig_eq
  code := by
    refine ⟨r.position, ?_, fun i mem l target => ?_⟩
    · rw [OpenRoutine.finished, Array.toList_map, describes.code_eq]
    · rw [← describes.code_eq, Array.mem_toList_iff] at mem
      exact (describes.placed_iff l _).mp ((r.resolve_ok_iff l _).mp (resolved i mem l target))
  placed_once l p q first second := by
    have bound := (describes.placed_iff l p).mpr first
    rw [(describes.placed_iff l q).mpr second] at bound
    cases bound
    rfl

end Describes

end Draft

namespace Assembler

/-! Drafts of a script. -/

/-- The calls that succeed before the next end of a routine, where that end succeeds. -/
def untilEnd? : List Attempt → Option (List Call)
  | [] => none
  | first :: rest =>
      if first.call.endsRoutine then if first.ok then some [] else none
      else (untilEnd? rest).map fun calls => if first.ok then first.call :: calls else calls

/-- The routines whose beginning and whose next end both succeed, in the order they are begun. -/
def drafts : List Attempt → List Draft
  | [] => []
  | first :: rest =>
      ((if first.ok then first.call.heading? else none).bind fun heading =>
        (untilEnd? rest).map (Draft.mk heading)).toList ++ drafts rest

/-- All drafts that a script comes to, given those that are finished and the one that is open when
the rest of it begins. -/
def foreseen (finished : List Draft) (current : Option Draft) (rest : List Attempt) : List Draft :=
  finished ++ (current.bind fun d => (untilEnd? rest).map fun calls =>
    { d with calls := d.calls ++ calls }).toList ++ drafts rest

section Foreseen

variable (finished : List Draft) (current : Option Draft) (rest : List Attempt) {c : Call}

theorem foreseen_nil : foreseen finished current [] = finished := by
  cases current <;> simp [foreseen, untilEnd?, drafts]

theorem foreseen_failed (other : c.endsRoutine = false) :
    foreseen finished current (⟨c, false⟩ :: rest) = foreseen finished current rest := by
  simp [foreseen, untilEnd?, drafts, other]

theorem foreseen_dropped :
    foreseen finished current (⟨.perform .endRoutine, false⟩ :: rest) =
      foreseen finished none rest := by
  cases current <;> simp [foreseen, untilEnd?, drafts, Call.endsRoutine]

theorem foreseen_ended (d : Draft) :
    foreseen finished (some d) (⟨.perform .endRoutine, true⟩ :: rest) =
      foreseen (finished ++ [d]) none rest := by
  simp [foreseen, untilEnd?, drafts, Call.endsRoutine, Call.heading?]

theorem foreseen_begun (access : Access) (name : String) (sig : Signature) :
    foreseen finished none (⟨.perform (.beginRoutine access name sig), true⟩ :: rest) =
      foreseen finished (some ⟨⟨access, name, sig⟩, []⟩) rest := by
  simp [foreseen, drafts, Call.heading?]

theorem foreseen_added (other : c.endsRoutine = false) (inside : c.heading? = none) :
    foreseen finished current (⟨c, true⟩ :: rest) =
      foreseen finished (current.map (·.add c)) rest := by
  have assoc (d : Draft) : (fun calls => { d with calls := d.calls ++ c :: calls }) =
      fun calls => { d.add c with calls := (d.add c).calls ++ calls } := by
    funext calls
    simp [Draft.add]
  cases current <;> simp [foreseen, untilEnd?, drafts, other, inside, Function.comp_def, assoc]

end Foreseen

/-! What an assembler has of them. -/

/-- The finished routines of an assembler are these drafts, and its open one is the draft that the
calls so far have come to. -/
structure Bears (a : Assembler) (finished : List Draft) (current : Option Draft) : Prop where
  finished : List.Forall₂ Draft.Becomes finished a.routines.toList
  current : Option.Rel Draft.Describes current a.current

namespace Bears

variable {a a' : Assembler} {finished : List Draft} {current : Option Draft} {c : Call}

theorem start : ({} : Assembler).Bears [] none := ⟨.nil, .none⟩

theorem describes (bears : a.Bears finished current) {r : OpenRoutine} (h : a.current = some r) :
    ∃ d, current = some d ∧ d.Describes r := by
  have open_ := bears.current
  rw [h] at open_
  cases open_ with
  | some describes => exact ⟨_, rfl, describes⟩

theorem eq_none (bears : a.Bears finished current) (h : a.current = none) : current = none := by
  have closed := bears.current
  rw [h] at closed
  cases closed
  rfl

/-- A call that adds to the draft of the open routine, if there is one. -/
theorem add (bears : a.Bears finished current) {r r' : OpenRoutine} (h : a.current = some r)
    (next : ∀ d : Draft, d.Describes r → (d.add c).Describes r') :
    Bears { a with current := some r' } finished (current.map (·.add c)) := by
  obtain ⟨d, rfl, describes⟩ := bears.describes h
  exact ⟨bears.finished, .some (next d describes)⟩

/-- What comes of a script once a call has failed. -/
theorem leaves (bears : a.Bears finished current) (h : a.Leaves c a') :
    ∃ current', a'.Bears finished current' ∧ ∀ rest,
      foreseen finished current (⟨c, false⟩ :: rest) = foreseen finished current' rest := by
  cases h with
  | unchanged other =>
      exact ⟨current, bears, fun rest => foreseen_failed finished current rest other⟩
  | retained other open_ retains =>
      obtain ⟨d, rfl, describes⟩ := bears.describes open_
      exact ⟨some d, ⟨bears.finished, .some (describes.retains retains)⟩,
        fun rest => foreseen_failed finished _ rest other⟩
  | dropped =>
      exact ⟨none, ⟨bears.finished, .none⟩, fun rest => foreseen_dropped finished current rest⟩

theorem beginUnit (bears : a.Bears finished current) (name base : String) :
    Bears { a with header := some (name, base) } finished
      (current.map (·.add (.perform (.beginUnit name base)))) := by
  refine ⟨bears.finished, ?_⟩
  change Option.Rel _ _ a.current
  cases open_ : a.current with
  | none =>
      cases bears.eq_none open_
      exact .none
  | some r =>
      obtain ⟨d, rfl, describes⟩ := bears.describes open_
      exact .some (describes.idle rfl nofun)

theorem endRoutine (bears : a.Bears finished current) {r : OpenRoutine}
    (open_ : a.current = some r)
    (resolved : ∀ i ∈ r.code, ∀ l ∈ i.targets, r.resolve l = .ok (r.position l)) :
    ∃ d, current = some d ∧
      Bears { a with routines := a.routines.push r.finished, current := none }
        (finished ++ [d]) none := by
  obtain ⟨d, rfl, describes⟩ := bears.describes open_
  refine ⟨d, rfl, ?_, .none⟩
  rw [Array.toList_push]
  exact List.rel_append bears.finished (.cons (describes.finished resolved) .nil)

/-- What comes of a script once a call has succeeded. -/
theorem takes (bears : a.Bears finished current) (h : a.Takes c a') :
    ∃ finished' current', a'.Bears finished' current' ∧ ∀ rest,
      foreseen finished current (⟨c, true⟩ :: rest) = foreseen finished' current' rest := by
  cases h with
  | newLabel open_ =>
      exact ⟨_, _, bears.add open_ fun d describes => describes.newLabel,
        fun rest => foreseen_added finished current rest rfl rfl⟩
  | nowhere closed =>
      cases bears.eq_none closed
      exact ⟨_, _, bears, fun rest => foreseen_added finished none rest rfl rfl⟩
  | beginUnit _ =>
      exact ⟨_, _, bears.beginUnit _ _,
        fun rest => foreseen_added finished current rest rfl rfl⟩
  | beginRoutine _ closed _ =>
      cases bears.eq_none closed
      exact ⟨_, _, ⟨bears.finished, .some (.start _ _ _)⟩,
        fun rest => foreseen_begun finished rest _ _ _⟩
  | @inner d _ _ inside open_ extends_ =>
      obtain ⟨plain, headless⟩ := Call.plain_of_isInner d inside
      exact ⟨_, _, bears.add open_ fun d describes => describes.extends_ extends_,
        fun rest => foreseen_added finished current rest plain headless⟩
  | endRoutine open_ _ resolved _ =>
      obtain ⟨d, rfl, ended⟩ := bears.endRoutine open_ resolved
      exact ⟨_, _, ended, fun rest => foreseen_ended finished rest d⟩

theorem step (bears : a.Bears finished current) (c : Call) :
    ∃ finished' current',
      Bears (c.act a : Except EmitError Unit × Assembler).2 finished' current' ∧
      ∀ rest, foreseen finished current
          (⟨c, (c.act a : Except EmitError Unit × Assembler).1.isOk⟩ :: rest) =
        foreseen finished' current' rest := by
  obtain ⟨ok, takes⟩ | ⟨failed, leaves⟩ := a.act_cases c
  · rw [ok]
    exact bears.takes takes
  · rw [failed]
    obtain ⟨current', next, same⟩ := bears.leaves leaves
    exact ⟨finished, current', next, same⟩

/-- A script leaves the routines that it was foreseen to come to. -/
theorem drive (bears : a.Bears finished current) (calls : List Call) :
    List.Forall₂ Draft.Becomes (foreseen finished current (a.attempts calls))
      (a.drive calls).routines.toList := by
  induction calls generalizing a finished current with
  | nil =>
      rw [attempts, foreseen_nil]
      exact bears.finished
  | cons c calls ih =>
      obtain ⟨finished', current', next, same⟩ := bears.step c
      rw [attempts, same]
      exact ih next

end Bears

theorem drive_becomes (calls : List Call) :
    List.Forall₂ Draft.Becomes (drafts (attempts {} calls)) (drive {} calls).routines.toList :=
  Bears.start.drive calls

/-- A call that fails leaves the code, the labels and the finished routines, except for the end of a
routine, which drops the open one. -/
theorem Leaves.spared {a a' : Assembler} {c : Call} (h : a.Leaves c a') :
    if c.endsRoutine then a' = { a with current := none }
    else a'.header = a.header ∧ a'.routines = a.routines ∧
      Option.Rel OpenRoutine.Retains a.current a'.current := by
  cases h with
  | unchanged other =>
      rw [other]
      refine ⟨rfl, rfl, ?_⟩
      cases a.current with
      | none => exact .none
      | some r => exact .some (.refl r)
  | retained other open_ retains =>
      rw [other, open_]
      exact ⟨rfl, rfl, .some retains⟩
  | dropped => rfl

/-- Calls that fail leave no trace in a unit. Its routines are the drafts of the script in their
order: those whose beginning and next end succeeded, each with the instructions of the calls that
succeeded in between and with its labels where they were placed among them. -/
theorem finish_becomes (calls : List Call) :
    (∀ (a a' : Assembler) (c : Call) (e : EmitError), Fails c.act a e a' →
      if c.endsRoutine then a' = { a with current := none }
      else a'.header = a.header ∧ a'.routines = a.routines ∧
        Option.Rel OpenRoutine.Retains a.current a'.current) ∧
    ∀ (u : CodeUnit) (a : Assembler), Succeeds finish (drive {} calls) u a →
      List.Forall₂ Draft.Becomes (drafts (attempts {} calls)) u.routines.toList := by
  refine ⟨fun a a' c e failed => (leaves_of_fails c failed).spared, fun u a finished => ?_⟩
  obtain ⟨name, base, -, -, rfl, -⟩ := (finish_iff (drive {} calls) a u).mp finished
  exact drive_becomes calls

/-- The first call of this script that fails has taken the key off the stack by then, and the
routine comes out as if it had never been made. -/
theorem finish_becomes_of_stumbling :
    (∃ e a', Fails (Call.perform (.lookupSwitch ⟨1⟩ [(7, ⟨0⟩), (7, ⟨1⟩)])).act
        (drive {} (stumbling.take 5)) e a' ∧
      Option.Rel OpenRoutine.Retains (drive {} (stumbling.take 5)).current a'.current) ∧
    ∃ a, Succeeds finish (drive {} stumbling) ⟨"Hand", Contract.defaultName, #[stumbledRoutine]⟩ a ∧
      ∃ d, drafts (attempts {} stumbling) = [d] ∧ d.Becomes stumbledRoutine := by
  obtain ⟨spares, routines⟩ := finish_becomes stumbling
  constructor
  · obtain ⟨e, failed⟩ := Fails.of_isOk_eq_false
      (Call.perform (.lookupSwitch ⟨1⟩ [(7, ⟨0⟩), (7, ⟨1⟩)])).act (drive {} (stumbling.take 5))
      (by decide +kernel)
    exact ⟨e, _, failed, (spares _ _ _ _ failed).2.2⟩
  · have finished := Succeeds.of_toOption finish (drive {} stumbling)
      ⟨"Hand", Contract.defaultName, #[stumbledRoutine]⟩ (by decide +kernel)
    obtain ⟨d, rest, becomes, others, drafts_eq⟩ :=
      List.forall₂_cons_right_iff.mp (routines _ _ finished)
    cases others
    exact ⟨_, finished, d, drafts_eq, becomes⟩

end Assembler

end TokenDispatch
