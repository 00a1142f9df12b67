import TokenDispatch.Proofs.Drafts
import TokenDispatch.Proofs.SwitchRouting

/-!
Switches of finished routines. Sorting keeps each key with its label, and a label becomes the
position where it was placed; so a switch sends a key to the place of the label that the call named
for it. No two cases of a lookup have the same key, since such a call fails.
-/

namespace TokenDispatch

namespace Edit

theorem sortCases_keys_perm (cases : List (Int32 × Label)) :
    ((sortCases cases).map (·.1)).Perm (cases.map (·.1)) := (sortCases_perm cases).map _

theorem nodup_of_ascending (cases : List (Int32 × Label))
    (ascending : ((sortCases cases).map (·.1)).Pairwise (· < ·)) : (cases.map (·.1)).Nodup := by
  have distinct : ((sortCases cases).map (·.1)).Nodup := ascending.imp Int32.ne_of_lt
  exact (sortCases_keys_perm cases).nodup_iff.mp distinct

end Edit

/-- Whatever frame of a routine comes to a position with a key on top of its stack, it goes on at
the target, without the key and with all else as it was. -/
def Routine.SendsAt (r : Routine) (position : Nat) (key : Int32) (target : Nat) : Prop :=
  ∀ (p : Program) (f : Frame) (callers : List Caller) (s : List Operand) (w : World),
    f.routine = r → f.position = position → f.stack = .int key :: s →
      p.step ⟨f, callers⟩ w = (.next ⟨{ f with position := target, stack := s }, callers⟩, w)

theorem Routine.sendsAt_of_route? {r : Routine} {k : Nat} {i : Instr Nat} {key : Int32}
    {target : Nat} (here : r.code[k]? = some i) (sent : i.route? key = some target) :
    r.SendsAt k key target := by
  rintro p f callers s w rfl rfl stack
  exact Program.step_route i key target sent f callers s here stack w

namespace Draft

/-- The switches of a routine lead where the calls of its draft said. -/
structure Routes (d : Draft) (r : Routine) : Prop where
  /-- A switch was asked for by one of two directives. -/
  performed : ∀ (k : Nat) (i : Instr Nat), r.code[k]? = some i → i.targets ≠ [] →
    (∃ default cases, d.PerformsAt k (.lookupSwitch default cases)) ∨
      ∃ low default targets, d.PerformsAt k (.tableSwitch low default targets)
  /-- So whichever way the cases are searched, a key is found in one case at most. -/
  ascending : ∀ (k default : Nat) (cases : List (Int32 × Nat)),
    r.code[k]? = some (.lookupSwitch default cases) → (cases.map (·.1)).Pairwise (· < ·)
  distinct : ∀ (k : Nat) (default : Label) (cases : List (Int32 × Label)),
    d.PerformsAt k (.lookupSwitch default cases) → (cases.map (·.1)).Nodup
  case_sent : ∀ (k : Nat) (default : Label) (cases : List (Int32 × Label)) (key : Int32)
    (label : Label), d.PerformsAt k (.lookupSwitch default cases) → (key, label) ∈ cases →
      ∃ target, d.PerformsAt target (.placeLabel label) ∧ r.SendsAt k key target
  other_sent : ∀ (k : Nat) (default : Label) (cases : List (Int32 × Label)) (key : Int32),
    d.PerformsAt k (.lookupSwitch default cases) → key ∉ cases.map (·.1) →
      ∃ target, d.PerformsAt target (.placeLabel default) ∧ r.SendsAt k key target
  slot_sent : ∀ (k : Nat) (low : Int32) (default : Label) (targets : List Label) (key : Int32)
    (slot : Nat) (label : Label), d.PerformsAt k (.tableSwitch low default targets) →
      key.toInt - low.toInt = slot → targets[slot]? = some label →
        ∃ target, d.PerformsAt target (.placeLabel label) ∧ r.SendsAt k key target
  outside_sent : ∀ (k : Nat) (low : Int32) (default : Label) (targets : List Label) (key : Int32),
    d.PerformsAt k (.tableSwitch low default targets) →
      key.toInt - low.toInt < 0 ∨ targets.length ≤ key.toInt - low.toInt →
        ∃ target, d.PerformsAt target (.placeLabel default) ∧ r.SendsAt k key target

variable {d : Draft} {r : Routine} {k : Nat} {directive : Directive Label} {i : Instr Label}

open Assembler

theorem code_of_performsAt (performs : d.PerformsAt k directive)
    (instr : (Call.perform directive).instr? = some i) : d.code[k]? = some i := by
  obtain ⟨before, after, calls, rfl⟩ := performs
  rw [code, calls, List.filterMap_append, List.getElem?_append_right (Nat.le_refl _), Nat.sub_self,
    List.filterMap_cons_some instr]
  rfl

/-- Each instruction was asked for by a directive that succeeded at its position. -/
theorem performsAt_of_code (found : d.code[k]? = some i) :
    ∃ directive, d.PerformsAt k directive ∧ (Call.perform directive).instr? = some i := by
  obtain ⟨lt, rfl⟩ := List.getElem?_eq_some_iff.mp found
  have split : d.code = d.code.take k ++ d.code[k] :: d.code.drop (k + 1) := by
    rw [← List.drop_eq_getElem_cons lt, List.take_append_drop]
  obtain ⟨front, back, calls, front_eq, back_eq⟩ := List.filterMap_eq_append_iff.mp split
  obtain ⟨idle, c, after, rfl, plain, instr, -⟩ := List.filterMap_eq_cons_iff.mp back_eq
  cases c with
  | newLabel => cases instr
  | perform directive =>
      refine ⟨directive, ⟨front ++ idle, after, by rw [calls, List.append_assoc], ?_⟩, instr⟩
      rw [List.filterMap_append, front_eq, List.filterMap_eq_nil_iff.mpr plain, List.append_nil,
        List.length_take, Nat.min_eq_left (Nat.le_of_lt lt)]

namespace Becomes

theorem code_at (becomes : d.Becomes r) :
    ∃ position : Label → Nat, (∀ k : Nat, r.code[k]? = (d.code[k]?).map (Instr.map position)) ∧
      ∀ i ∈ d.code, ∀ l ∈ i.targets, d.PerformsAt (position l) (.placeLabel l) := by
  obtain ⟨position, code_eq, placed⟩ := becomes.code
  refine ⟨position, fun k => ?_, placed⟩
  rw [← Array.getElem?_toList, code_eq, List.getElem?_map]

/-- A switch sends a key to the place of the label that it was to send it to. -/
theorem sends (becomes : d.Becomes r) (here : d.code[k]? = some i) {key : Int32} {label : Label}
    (sent : i.route? key = some label) :
    ∃ target, d.PerformsAt target (.placeLabel label) ∧ r.SendsAt k key target := by
  obtain ⟨position, code_at, placed⟩ := becomes.code_at
  refine ⟨position label, ?_, Routine.sendsAt_of_route? (i := i.map position) ?_ ?_⟩
  · exact placed i (List.mem_of_getElem? here) label (Instr.mem_targets_of_route? sent)
  · rw [code_at, here]
    rfl
  · rw [Instr.route?_map, sent]
    rfl

/-- A label is placed but once, so where a switch leads is where the label was placed. -/
theorem sendsAt_of_placed (becomes : d.Becomes r) {key : Int32} {label : Label} {p : Nat}
    (placed : d.PerformsAt p (.placeLabel label))
    (sent : ∃ target, d.PerformsAt target (.placeLabel label) ∧ r.SendsAt k key target) :
    r.SendsAt k key p := by
  obtain ⟨target, other, sent⟩ := sent
  rwa [becomes.placed_once label p target placed other]

theorem performed (becomes : d.Becomes r) {j : Instr Nat} (here : r.code[k]? = some j)
    (switch : j.targets ≠ []) :
    (∃ default cases, d.PerformsAt k (.lookupSwitch default cases)) ∨
      ∃ low default targets, d.PerformsAt k (.tableSwitch low default targets) := by
  obtain ⟨position, code_at, -⟩ := becomes.code_at
  obtain ⟨i, found, rfl⟩ := Option.map_eq_some_iff.mp ((code_at k).symm.trans here)
  rw [Instr.targets_map, Ne, List.map_eq_nil_iff] at switch
  obtain ⟨directive, performs, instr⟩ := performsAt_of_code found
  obtain plain | ⟨default, cases, rfl⟩ | ⟨low, default, targets, rfl⟩ := Call.instr?_cases instr
  · exact absurd (directive.targets_of_instr? i plain) switch
  · exact .inl ⟨default, cases, performs⟩
  · exact .inr ⟨low, default, targets, performs⟩

theorem distinct (becomes : d.Becomes r) (formed : r.WellFormed) {default : Label}
    {cases : List (Int32 × Label)} (performs : d.PerformsAt k (.lookupSwitch default cases)) :
    (cases.map (·.1)).Nodup := by
  obtain ⟨position, code_at, -⟩ := becomes.code_at
  have here := code_at k
  rw [code_of_performsAt performs rfl] at here
  have fits := formed.fits _ (Array.mem_of_getElem? here)
  exact Edit.nodup_of_ascending cases ((Instr.fits_map_iff _ _ _ _).mp fits)

theorem routes (becomes : d.Becomes r) (formed : r.WellFormed) : d.Routes r where
  performed _ _ := becomes.performed
  ascending _ _ _ here := formed.fits _ (Array.mem_of_getElem? here)
  distinct _ _ _ := becomes.distinct formed
  case_sent k default cases key label performs mem := by
    refine becomes.sends (code_of_performsAt performs rfl) (Instr.route?_of_case ?_ ?_)
    · exact (Edit.sortCases_keys_perm cases).nodup_iff.mpr (becomes.distinct formed performs)
    · exact (Edit.mem_sortCases_iff _ _).mpr mem
  other_sent k default cases key performs missing := by
    refine becomes.sends (code_of_performsAt performs rfl) (Instr.route?_of_no_case fun mem => ?_)
    exact missing ((Edit.sortCases_keys_perm cases).mem_iff.mp mem)
  slot_sent k low default targets key slot label performs distance found :=
    becomes.sends (code_of_performsAt performs rfl) (Instr.route?_of_slot (by omega) found)
  outside_sent k low default targets key performs outside :=
    becomes.sends (code_of_performsAt performs rfl) (Instr.route?_of_no_slot (by omega))

end Becomes

end Draft

namespace Assembler

/-- Two cases with one key make a lookup fail, wherever it is called. -/
theorem lookup_fails_of_repeated (a : Assembler) (default : Label) (cases : List (Int32 × Label))
    (repeated : ¬ (cases.map (·.1)).Nodup) :
    ∃ e a', Fails (perform (.lookupSwitch default cases)) a e a' := by
  refine Fails.of_not_succeeds _ _ fun u a' succeeds => repeated ?_
  obtain ⟨r, r', -, extends_, -⟩ := (perform_iff_extends _ rfl a a' u).mp succeeds
  cases extends_ with
  | instruct instr _ => cases instr
  | lookupSwitch _ _ _ distinct =>
      exact Edit.nodup_of_ascending cases
        (Edit.ascending_of_sorted _ (Edit.sorted_sortCases cases) distinct)

theorem drive_drafted {calls : List Call} {r : Routine} (mem : r ∈ (drive {} calls).routines) :
    ∃ d ∈ drafts (attempts {} calls), d.Becomes r := by
  have becomes := drive_becomes calls
  obtain ⟨i, lt, rfl⟩ := List.mem_iff_getElem.mp (Array.mem_toList_iff.mpr mem)
  have drafted : i < (drafts (attempts {} calls)).length := becomes.length_eq ▸ lt
  exact ⟨_, List.getElem_mem drafted, becomes.get drafted lt⟩

/-- Switches of the routines that a script finishes, some of its calls failing. A lookup was added
without repeated keys, and sends a key to the place of the label of its case, or of the default for
want of one. A table sends a key to the place of the target at its distance from the least key, or
of the default where there is none at that distance. -/
theorem finished_switches_route (calls : List Call) :
    (∀ (a : Assembler) (default : Label) (cases : List (Int32 × Label)),
      ¬ (cases.map (·.1)).Nodup →
        ∃ e a', Fails (perform (.lookupSwitch default cases)) a e a') ∧
    ∀ r ∈ (drive {} calls).routines, ∃ d ∈ drafts (attempts {} calls), d.Becomes r ∧ d.Routes r := by
  refine ⟨lookup_fails_of_repeated, fun r mem => ?_⟩
  obtain ⟨d, drafted, becomes⟩ := drive_drafted mem
  exact ⟨d, drafted, becomes, becomes.routes ((Sound.start.drive calls).closed r mem)⟩

/-- The keys of the lookup are not in order, and no key is at the distance of the last target. -/
def switching : List Call :=
  [.perform (.beginUnit "Hand" Contract.defaultName),
    .perform (.beginRoutine .exported RoutineName.entry .dispatch),
    .newLabel,
    .newLabel,
    .newLabel,
    .perform (.loadLocal Slot.token),
    .perform (.lookupSwitch ⟨0⟩ [(9, ⟨1⟩), (-2, ⟨2⟩)]),
    .perform (.placeLabel ⟨1⟩),
    .perform (.loadLocal Slot.token),
    .perform (.tableSwitch 2147483646 ⟨0⟩ [⟨0⟩, ⟨2⟩, ⟨2⟩]),
    .perform (.placeLabel ⟨2⟩),
    .perform (.loadLocal Slot.arguments),
    .perform (.ret .reference),
    .perform (.placeLabel ⟨0⟩),
    .perform .pushNull,
    .perform (.ret .reference),
    .perform .endRoutine]

def switchingDraft : Draft where
  heading := ⟨.exported, RoutineName.entry, .dispatch⟩
  calls := (switching.drop 2).dropLast

def switchingRoutine : Routine where
  access := .exported
  name := RoutineName.entry
  sig := .dispatch
  descriptor := Signature.dispatch.descriptor
  code := #[.loadLocal Slot.token, .lookupSwitch 6 [(-2, 4), (9, 2)], .loadLocal Slot.token,
    .tableSwitch 2147483646 6 [6, 4, 4], .loadLocal Slot.arguments, .ret, .pushNull, .ret]
  maxStack := 1
  maxLocals := 4

theorem finished_switches_route_of_switching :
    (∃ e a', Fails (perform (.lookupSwitch ⟨0⟩ [(9, ⟨1⟩), (-2, ⟨2⟩), (9, ⟨2⟩)]))
        (drive {} (switching.take 6)) e a') ∧
      switchingRoutine ∈ (drive {} switching).routines ∧ switchingRoutine.SendsAt 1 9 2 ∧
      switchingRoutine.SendsAt 1 0 6 ∧ switchingRoutine.SendsAt 3 2147483647 4 ∧
      switchingRoutine.SendsAt 3 (-2147483648) 6 := by
  obtain ⟨repeats, routes⟩ := finished_switches_route switching
  have finished : (drive {} switching).routines = #[switchingRoutine] := by decide +kernel
  have drafted : drafts (attempts {} switching) = [switchingDraft] := by decide +kernel
  have mem : switchingRoutine ∈ (drive {} switching).routines :=
    finished ▸ Array.mem_singleton.mpr rfl
  obtain ⟨d, listed, becomes, routes⟩ := routes switchingRoutine mem
  cases List.mem_singleton.mp (drafted ▸ listed)
  have first : switchingDraft.PerformsAt 2 (.placeLabel ⟨1⟩) :=
    ⟨switchingDraft.calls.take 5, switchingDraft.calls.drop 6, rfl, rfl⟩
  have second : switchingDraft.PerformsAt 4 (.placeLabel ⟨2⟩) :=
    ⟨switchingDraft.calls.take 8, switchingDraft.calls.drop 9, rfl, rfl⟩
  have last : switchingDraft.PerformsAt 6 (.placeLabel ⟨0⟩) :=
    ⟨switchingDraft.calls.take 11, switchingDraft.calls.drop 12, rfl, rfl⟩
  have lookup : switchingDraft.PerformsAt 1 (.lookupSwitch ⟨0⟩ [(9, ⟨1⟩), (-2, ⟨2⟩)]) :=
    ⟨switchingDraft.calls.take 4, switchingDraft.calls.drop 5, rfl, rfl⟩
  have table : switchingDraft.PerformsAt 3 (.tableSwitch 2147483646 ⟨0⟩ [⟨0⟩, ⟨2⟩, ⟨2⟩]) :=
    ⟨switchingDraft.calls.take 7, switchingDraft.calls.drop 8, rfl, rfl⟩
  refine ⟨repeats _ _ _ (by decide), mem, ?_, ?_, ?_, ?_⟩
  · exact becomes.sendsAt_of_placed first (routes.case_sent _ _ _ 9 _ lookup (.head _))
  · exact becomes.sendsAt_of_placed last (routes.other_sent _ _ _ 0 lookup (by decide))
  · exact becomes.sendsAt_of_placed second (routes.slot_sent _ _ _ _ _ 1 _ table (by decide) rfl)
  · exact becomes.sendsAt_of_placed last (routes.outside_sent _ _ _ _ _ table (by decide))

end Assembler

end TokenDispatch
