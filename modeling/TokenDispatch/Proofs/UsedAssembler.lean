import TokenDispatch.Proofs.FailedCalls
import TokenDispatch.Proofs.PairedRuns

/-!
Generation on an assembler that calls were made on before. Until a unit is begun no call changes the
assembler, and neither does a whole part of generation: it fails at its first call, or makes none.
Once a unit is begun nothing undoes that. So generation on a used assembler is refused at once, or
is that of a new one.
-/

namespace TokenDispatch

namespace Assembler

open Script Pairing

variable {a : Assembler}

/-- What a script may ask for: a call, or a part of generation that makes calls of its own. -/
inductive Passage where
  | call (c : Call)
  | methodRoutine (name : String) (m : Method)
  | entry (unit : String) (index : TokenIndex) (routines : List String) (form : SwitchForm)
  | narrowing (target : Ty)

namespace Passage

def act : Passage → Emit Assembler Unit
  | call c => c.act
  | methodRoutine name m => emitMethodRoutine name m
  | entry unit index routines form => emitEntry unit index routines form
  | narrowing target => emitNarrowing target

/-- The one passage that can begin a unit. -/
def begin_ (name base : String) : Passage := .call (.perform (.beginUnit name base))

end Passage

/-- Goes through a script to its end, whichever of its passages fail. -/
def play (a : Assembler) (script : List Passage) : Assembler :=
  script.foldl (fun a p => (p.act a : Except EmitError Unit × Assembler).2) a

theorem play_append (a : Assembler) (first second : List Passage) :
    a.play (first ++ second) = (a.play first).play second :=
  List.foldl_append

/-! Before a unit is begun. -/

theorem Call.act_start (c : Call) (other : ∀ name base, c ≠ .perform (.beginUnit name base)) :
    (c.act ({} : Assembler) : Except EmitError Unit × Assembler).2 = {} := by
  generalize result : (c.act ({} : Assembler) : Except EmitError Unit × Assembler).2 = a
  obtain ⟨-, takes⟩ | ⟨-, leaves⟩ := act_cases {} c
  · rw [result] at takes
    cases takes with
    | nowhere _ => rfl
    | beginUnit _ => exact absurd rfl (other _ _)
    | beginRoutine begun _ _ => exact absurd rfl begun
    | newLabel current | inner _ current _ | endRoutine current _ _ _ => cases current
  · rw [result] at leaves
    cases leaves with
    | unchanged _ | dropped => rfl
    | retained _ current _ => cases current

theorem beginRoutine_start (access : Access) (name : String) (sig : Signature) :
    @Eq (Except EmitError Unit × Assembler) (perform (.beginRoutine access name sig) {})
      (.error .routineBeforeUnit, {}) := rfl

/-- A part of generation needs an open routine or begins one, and neither can be. -/
theorem Passage.act_start (p : Passage) (other : ∀ name base, p ≠ begin_ name base) :
    (p.act ({} : Assembler) : Except EmitError Unit × Assembler).2 = {} := by
  cases p with
  | call c =>
      refine c.act_start fun name base same => ?_
      exact other name base (congrArg Passage.call same)
  | methodRoutine name m =>
      exact congrArg Prod.snd (Emit.bind_of_error _ (beginRoutine_start .internal name .dispatch))
  | entry unit index routines form =>
      by_cases count : routines.length = index.size
      · rw [act, emitEntry_eq _ _ _ _ count]
        have refused := beginRoutine_start .exported RoutineName.entry .dispatch
        exact congrArg Prod.snd (Emit.bind_of_error _ (Emit.bind_of_error _ refused))
      · rw [act, emitEntry, if_pos count]
        rfl
  | narrowing target =>
      cases target with
      | void => rfl
      | prim kind => exact Call.act_start (.perform (.unbox kind)) (by simp)
      | named _ | array _ =>
          simp only [act, emitNarrowing]
          split
          · rfl
          · exact Call.act_start (.perform (.checkCast _)) (by simp)

/-! Once a unit is begun. -/

theorem Call.act_header (c : Call) (a : Assembler) (unit : String × String)
    (begun : a.header = some unit) :
    (c.act a : Except EmitError Unit × Assembler).2.header = some unit := by
  generalize result : (c.act a : Except EmitError Unit × Assembler).2 = a'
  obtain ⟨-, takes⟩ | ⟨-, leaves⟩ := act_cases a c
  · rw [result] at takes
    cases takes with
    | beginUnit fresh =>
        rw [fresh] at begun
        cases begun
    | _ => exact begun
  · rw [result] at leaves
    cases leaves <;> exact begun

theorem keeping_header_respects (unit : String × String) :
    (keeping fun a : Assembler => a.header = some unit).Respects where
  fresh := .of_keeps fun a begun => Call.act_header .newLabel a unit begun
  perform d := .of_keeps fun a begun => Call.act_header (.perform d) a unit begun
  finish := .of_keeps fun a begun => by
    change (Assembler.finish a : Except EmitError CodeUnit × Assembler).2.header = some unit
    rw [finish]
    split <;> exact begun

theorem Passage.act_header (p : Passage) (a : Assembler) (unit : String × String)
    (begun : a.header = some unit) :
    (p.act a : Except EmitError Unit × Assembler).2.header = some unit := by
  have respects := keeping_header_respects unit
  cases p with
  | call c => exact c.act_header a unit begun
  | methodRoutine name m =>
      rw [act, emitMethodRoutine_eq]
      exact (respects.emit _).keeps a begun
  | entry unit index routines form => exact (respects.emitEntry _ _ _ _).keeps a begun
  | narrowing target =>
      rw [act, emitNarrowing_eq]
      exact (respects.emit _).keeps a begun

theorem play_header (script : List Passage) (unit : String × String)
    (begun : a.header = some unit) : (a.play script).header = some unit := by
  induction script generalizing a with
  | nil => exact begun
  | cons p script ih => exact ih (p.act_header a unit begun)

/-! Whole scripts, on a new assembler. -/

/-- A script in which this beginning of a unit succeeds. -/
def Begins (script : List Passage) (name base : String) : Prop :=
  ∃ before after, script = before ++ .begin_ name base :: after ∧
    ∃ a, Succeeds (Passage.begin_ name base).act (play {} before) () a

theorem header_of_begins {script : List Passage} {name base : String}
    (begins : Begins script name base) : (play {} script).header = some (name, base) := by
  obtain ⟨before, after, rfl, a, began⟩ := begins
  have begun : play {} (before ++ .begin_ name base :: after) = play a after := by
    rw [play_append]
    exact congrArg (fun end_ : Except EmitError Unit × Assembler => play end_.2 after) began
  rw [begun]
  obtain ⟨-, rfl⟩ := (beginUnit_iff name base _ a ()).mp began
  exact play_header after (name, base) rfl

theorem play_eq_start (script : List Passage) (never : ∀ name base, ¬ Begins script name base) :
    play {} script = {} := by
  induction script with
  | nil => rfl
  | cons p script ih =>
      have other (name base : String) : p ≠ .begin_ name base := by
        rintro rfl
        -- On a new assembler it would succeed.
        exact never name base ⟨[], script, rfl, _, (beginUnit_iff name base {} _ ()).mpr ⟨rfl, rfl⟩⟩
      have skip (rest : List Passage) : play {} (p :: rest) = play {} rest :=
        congrArg (play · rest) (p.act_start other)
      rw [skip]
      refine ih fun name base ⟨before, after, split, began⟩ => never name base ?_
      rw [← skip before] at began
      exact ⟨p :: before, after, congrArg (p :: ·) split, began⟩

theorem emitOpening_of_begun (options : Options) (unit name base : String)
    (begun : a.header = some (name, base)) :
    @Eq (Except EmitError Unit × Assembler) (emitOpening options unit a)
      (.error (.unitStarted name), a) := by
  refine Emit.bind_of_error _ ?_
  change beginUnit unit options.base a = _
  rw [beginUnit, begun]

/-- Generation on an assembler that a script was played on, from a new one: if a beginning of a unit
succeeded in the script, it is refused with the name of that unit, and the list and the assembler
stay as they are; else it is the generation of a new assembler. -/
theorem generate_of_used (script : List Passage) (options : Options) (unit : String)
    (methods : List Method) :
    (∀ name base, Begins script name base →
      generate options unit methods (play {} script) =
        ⟨.error (.invalidState "unit already started" (some name)), methods, play {} script⟩) ∧
    ((∀ name base, ¬ Begins script name base) →
      generate options unit methods (play {} script) =
        generate options unit methods ({} : Assembler)) := by
  constructor
  · intro name base begins
    exact generate_of_unopened methods
      (emitOpening_of_begun options unit name base (header_of_begins begins))
  · intro never
    rw [play_eq_start script never]

/-! A script before its unit, and with it. -/

def sizeOfBag : Method where
  name := "size"
  declaring := .named "Bag"
  params := []
  ret := .prim .int
  token := Token.ofUInt32? 7

/-- All of these come too early. -/
def early : List Passage :=
  [.call .newLabel, .narrowing (.named "Bag"), .methodRoutine "m0" sizeOfBag,
    .entry "Bags" (.ofCount 1) ["m0"] .lookup, .entry "Bags" (.ofCount 1) [] .table,
    .call (.perform (.lookupSwitch .nowhere [])), .call (.perform .endRoutine)]

/-- The second unit is refused, and a routine stays open. -/
def opened : List Passage :=
  early ++ [.begin_ "Bags" "Base", .begin_ "Sets" "Base", .methodRoutine "m0" sizeOfBag,
    .call (.perform (.beginRoutine .internal "m1" .dispatch))]

theorem generate_of_used_of_opened :
    (∀ name base, ¬ Begins early name base) ∧
      generate {} "Lists" [sizeOfBag] (play {} early) =
        generate {} "Lists" [sizeOfBag] ({} : Assembler) ∧
      Begins opened "Bags" "Base" ∧
      generate {} "Lists" [sizeOfBag] (play {} opened) =
        ⟨.error (.invalidState "unit already started" (some "Bags")), [sizeOfBag],
          play {} opened⟩ := by
  have never (name base : String) : ¬ Begins early name base := by
    rintro ⟨before, after, split, -⟩
    have mem : .begin_ name base ∈ early := split ▸ List.mem_append_right before (.head after)
    simp [early, Passage.begin_] at mem
  have begins : Begins opened "Bags" "Base" := by
    refine ⟨early, _, rfl, _, (beginUnit_iff "Bags" "Base" _ _ ()).mpr ⟨?_, rfl⟩⟩
    rw [play_eq_start early never]
  have used := generate_of_used early {} "Lists" [sizeOfBag]
  have reused := generate_of_used opened {} "Lists" [sizeOfBag]
  exact ⟨never, used.2 never, begins, reused.1 "Bags" "Base" begins⟩

end Assembler

end TokenDispatch
