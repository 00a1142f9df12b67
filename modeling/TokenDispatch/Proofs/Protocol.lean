import TokenDispatch.Proofs.Refusal
import TokenDispatch.Proofs.RoutineGroups
import TokenDispatch.Proofs.UnitLayout

/-!
The protocol between the generator and an emitter. On an emitter that accepts every call, a pass
over a list opens the unit, writes its routines in order, each of them whole and tidy, and finishes.
A malformed method breaks its own routine off, a list that is too long leaves the entry point and
all methods out, and nothing else stops a pass.
-/

namespace TokenDispatch

open Script Emitter

variable {σ L O α β : Type}

/-- A routine that a unit is made of. -/
inductive Part where
  | initializer (base : String)
  | entry (form : SwitchForm) (unit : String) (routines : List String)
  | method (name : String) (m : Method)

namespace Part

def heading : Part → Heading
  | initializer _ => .initializer
  | entry _ _ _ => .entry
  | method name _ => .method name

/-- All that is written of a routine, from its heading on, and the error that it is broken off with.
An entry point has a case for the key of each position, with a label of its own, and in the routine
of a method stand the operands, the one call and the answer of that method. -/
def Writes : Part → Script L → Prop
  | initializer base, s => s = ⟨Script.initializer base, none⟩
  | entry form unit routines, s => ∃ default cases,
      cases.map (·.1) = positionKeys routines.length ∧
        s = ⟨entryOpening ++ tokenSwitch form default cases ::
          entryBranches unit default (cases.zip routines), none⟩
  | method name m, s => s = methodRoutine name m

/-- The routines of the methods of a list, in its order. -/
def ofMethods (stem : String) (methods : List Method) : List Part :=
  methods.zipIdx.map fun arm => .method (routineName stem arm.2) arm.1

/-- The routines that stand below the initializer. -/
def dispatching (options : Options) (unit : String) (methods : List Method) : List Part :=
  .entry options.form unit ((List.range methods.length).map (routineName options.stem)) ::
    ofMethods options.stem methods

def ofUnit (options : Options) (unit : String) (methods : List Method) : List Part :=
  .initializer options.base :: dispatching options unit methods

end Part

/-- Events of routines, in order: of all of them, or up to an error. -/
inductive Follows : List Part → Option EmitError → List (Event L) → Prop
  | all : Follows [] none []
  | group {parts : List Part} {stop : Option EmitError} {events : List (Event L)} (part : Part)
      (g : Group L) (heading : g.heading = part.heading) (tidy : g.Tidy)
      (written : part.Writes ⟨g.directives, none⟩) (rest : Follows parts stop events) :
      Follows (part :: parts) stop (g.events ++ events)
  | crowded (form : SwitchForm) (unit : String) (routines : List String) (parts : List Part)
      (long : Token.limit < routines.length) :
      Follows (.entry form unit routines :: parts) (some (.tooManyMethods routines.length)) []
  | within (part : Part) (parts : List Part) (body : List (Directive L)) (e : EmitError)
      (inner : ∀ d ∈ body, d.isInner = true)
      (written : part.Writes ⟨part.heading.opening :: body, some e⟩) :
      Follows (part :: parts) (some e) ((part.heading.opening :: body).map .directive)

/-- What comes after the routines: the end of the unit, unless an error came before. -/
def closing : Option EmitError → List (Event L)
  | none => [.finish]
  | some _ => []

/-- The error that a pass ends with, if it fails. -/
def failure? : Except EmitError α → Option EmitError
  | .ok _ => none
  | .error e => some e

theorem failure?_map (f : α → β) (result : Except EmitError α) :
    failure? (result.map f) = failure? result := by
  cases result <;> rfl

namespace Follows

variable {parts more : List Part} {stop : Option EmitError} {events later : List (Event L)}

theorem append (h : Follows parts none events) (rest : Follows more stop later) :
    Follows (parts ++ more) stop (events ++ later) := by
  generalize is_whole : none = whole at h
  induction h with
  | all => exact rest
  | group part g heading tidy written _ ih =>
      rw [List.append_assoc]
      exact .group part g heading tidy written (ih is_whole)
  | crowded _ _ _ _ _ | within _ _ _ _ _ _ => cases is_whole

theorem broken {e : EmitError} (h : Follows parts (some e) events) (more : List Part) :
    Follows (parts ++ more) (some e) events := by
  generalize is_broken : some e = broken at h
  induction h with
  | all => cases is_broken
  | group part g heading tidy written _ ih =>
      exact .group part g heading tidy written (ih is_broken)
  | crowded form unit routines _ long => exact .crowded form unit routines _ long
  | within part _ body e inner written => exact .within part _ body e inner written

theorem one (part : Part) (g : Group L) (heading : g.heading = part.heading) (tidy : g.Tidy)
    (written : part.Writes ⟨g.directives, none⟩) : Follows [part] none g.events := by
  have whole := Follows.group part g heading tidy written .all
  rwa [List.append_nil] at whole

end Follows

/-! Emitters that accept every call. -/

/-- States from which an emitter accepts whatever it is asked for. -/
structure Accepting [Emitter σ L O] (ready : σ → Prop) : Prop where
  labels : ∀ s, ready s → ready (newLabel s).2
  performs : ∀ d s, ready s →
    ∃ t, @Eq (Except EmitError Unit × σ) (perform d s) (.ok (), t) ∧ ready t
  finishes : ∀ s, ready s → ∃ o t, @Eq (Except EmitError O × σ) (finish s) (.ok o, t) ∧ ready t

/-- What a program comes to on an observed emitter that is ready, and the events that it adds. -/
def Emits (ready : σ → Prop) (x : Emit (Observed σ L) α)
    (post : Except EmitError α → List (Event L) → Prop) : Prop :=
  ∀ o : Observed σ L, ready o.emitter → ∃ result emitter added,
    @Eq (Except EmitError α × Observed σ L) (x o)
      (result, { emitter := emitter, events := o.events ++ added }) ∧
    ready emitter ∧ post result added

namespace Emits

variable {ready : σ → Prop} {x : Emit (Observed σ L) α} {f : α → Emit (Observed σ L) β}
  {post : Except EmitError α → List (Event L) → Prop}
  {final : Except EmitError β → List (Event L) → Prop}

theorem ok (a : α) (holds : post (.ok a) []) : Emits ready (pure a : Emit (Observed σ L) α) post :=
  fun o is_ready => ⟨.ok a, o.emitter, [], by rw [List.append_nil]; rfl, is_ready, holds⟩

theorem error (e : EmitError) (holds : post (.error e) []) :
    Emits ready (throw e : Emit (Observed σ L) α) post :=
  fun o is_ready => ⟨.error e, o.emitter, [], by rw [List.append_nil]; rfl, is_ready, holds⟩

theorem mono {post' : Except EmitError α → List (Event L) → Prop} (h : Emits ready x post)
    (imp : ∀ result added, post result added → post' result added) : Emits ready x post' := by
  intro o is_ready
  obtain ⟨result, emitter, added, run, still_ready, holds⟩ := h o is_ready
  exact ⟨result, emitter, added, run, still_ready, imp result added holds⟩

/-- One program after another, which knows what the first has come to. -/
theorem bind (first : Emits ready x post)
    (rest : ∀ a added, post (.ok a) added →
      Emits ready (f a) (fun result later => final result (added ++ later)))
    (stops : ∀ e added, post (.error e) added → final (.error e) added) :
    Emits ready (x >>= f) final := by
  intro o is_ready
  obtain ⟨result, emitter, added, run, still_ready, holds⟩ := first o is_ready
  cases result with
  | error e =>
      rw [Emit.bind_of_error f run]
      exact ⟨.error e, emitter, added, rfl, still_ready, stops e added holds⟩
  | ok a =>
      rw [Emit.bind_of_ok f run]
      obtain ⟨result, last, later, run, last_ready, holds'⟩ :=
        rest a added holds { emitter := emitter, events := o.events ++ added } still_ready
      refine ⟨result, last, added ++ later, ?_, last_ready, holds'⟩
      rw [run, List.append_assoc]

/-- One program after another that always succeeds. -/
theorem after {holds : α → List (Event L) → Prop}
    (first : Emits ready x fun result added => ∃ a, result = .ok a ∧ holds a added)
    (rest : ∀ a added, holds a added →
      Emits ready (f a) (fun result later => final result (added ++ later))) :
    Emits ready (x >>= f) final := by
  refine first.bind (fun a added found => ?_) fun e added found => ?_
  · obtain ⟨_, same, found⟩ := found
    cases same
    exact rest a added found
  · obtain ⟨_, same, -⟩ := found
    cases same

end Emits

namespace Accepting

variable [Emitter σ L O] {ready : σ → Prop}

theorem perform_emits (h : Accepting ready) (d : Directive L) :
    Emits ready (perform d : Emit (Observed σ L) Unit)
      (fun result added => ∃ u, result = .ok u ∧ added = [.directive d]) := by
  intro o is_ready
  obtain ⟨t, run, still_ready⟩ := h.performs d o.emitter is_ready
  exact ⟨.ok (), t, _, Observed.relay_eq _ _ o run, still_ready, (), rfl, rfl⟩

theorem fresh_emits (h : Accepting ready) :
    Emits ready (fresh : Emit (Observed σ L) L)
      (fun result added => ∃ l, result = .ok l ∧ added = [.label l]) :=
  fun o is_ready => ⟨_, _, _, rfl, h.labels o.emitter is_ready, _, rfl, rfl⟩

theorem finish_emits (h : Accepting ready) :
    Emits ready (finish : Emit (Observed σ L) O)
      (fun result added => (∃ output, result = .ok output) ∧ added = [.finish]) := by
  intro o is_ready
  obtain ⟨output, t, run, still_ready⟩ := h.finishes o.emitter is_ready
  exact ⟨.ok output, t, _, Observed.relay_eq _ _ o run, still_ready, ⟨output, rfl⟩, rfl⟩

theorem follow_emits (h : Accepting ready) (ds : List (Directive L)) :
    Emits ready (follow ds : Emit (Observed σ L) Unit)
      (fun result added => ∃ u, result = .ok u ∧ added = ds.map .directive) := by
  induction ds with
  | nil => exact .ok () ⟨(), rfl, rfl⟩
  | cons d ds ih =>
      refine .after (h.perform_emits d) fun _ first first_eq => ih.mono fun result later rest => ?_
      obtain ⟨u, same, rfl⟩ := rest
      exact ⟨u, same, by rw [first_eq]; rfl⟩

theorem emit_emits (h : Accepting ready) (s : Script L) :
    Emits ready (s.emit : Emit (Observed σ L) Unit)
      (fun result added => failure? result = s.stop ∧ added = s.calls.map .directive) := by
  obtain ⟨calls, stop⟩ := s
  refine .after (h.follow_emits calls) fun _ added added_eq => ?_
  cases stop with
  | none => exact .ok () ⟨rfl, by rw [List.append_nil, added_eq]⟩
  | some e => exact .error e ⟨rfl, by rw [List.append_nil, added_eq]⟩

/-- Labels for the keys of a switch. -/
theorem mapM_fresh_emits (h : Accepting ready) (keys : List Int32) :
    Emits ready (keys.mapM fun key => (Prod.mk key <$> fresh : Emit (Observed σ L) (Int32 × L)))
      (fun result added => ∃ cases, result = .ok cases ∧ cases.map (·.1) = keys ∧
        added = (cases.map (·.2)).map .label) := by
  induction keys with
  | nil => exact .ok [] ⟨[], rfl, rfl, rfl⟩
  | cons key keys ih =>
      rw [List.mapM_cons, map_eq_pure_bind, bind_assoc]
      refine .after h.fresh_emits fun l first first_eq => ?_
      rw [pure_bind]
      refine .after ih fun cases later found => ?_
      obtain ⟨keys_eq, later_eq⟩ := found
      refine .ok _ ⟨(key, l) :: cases, rfl, congrArg (key :: ·) keys_eq, ?_⟩
      rw [List.append_nil, first_eq, later_eq]
      rfl

/-! The routines of a unit, one after another. -/

theorem initializer_emits (h : Accepting ready) (base : String) :
    Emits ready (emitInitializer base : Emit (Observed σ L) Unit)
      (fun result added => Follows [.initializer base] (failure? result) added) := by
  rw [emitInitializer_eq]
  refine (h.follow_emits _).mono fun result added written => ?_
  obtain ⟨_, rfl, rfl⟩ := written
  have plain : ∀ d ∈ [(.loadLocal Slot.self : Directive L),
      .invoke .special base RoutineName.initializer .initializer], d.isPlain = true := by
    simp [Directive.isPlain]
  have whole := Follows.one (.initializer base) (.straight .initializer _ plain .void : Group L) rfl
    Group.straight_tidy (by rw [Group.straight_directives]; rfl)
  rw [Group.straight_events] at whole
  exact whole

theorem method_emits (h : Accepting ready) (name : String) (m : Method) :
    Emits ready (emitMethodRoutine name m : Emit (Observed σ L) Unit)
      (fun result added => Follows [.method name m] (failure? result) added) := by
  rw [emitMethodRoutine_eq]
  refine (h.emit_emits _).mono fun result added written => ?_
  obtain ⟨ends, rfl⟩ := written
  rw [ends]
  have plain : ∀ d ∈ (targetCall m ++ reference m.ret : Script L).calls, d.isPlain = true :=
    (targetCall_plain m).append (reference_plain m.ret)
  cases stop : (targetCall m ++ reference m.ret : Script L).stop with
  | none =>
      have script := methodRoutine_of_whole name m stop
      have whole := Follows.one (.method name m)
        (.straight (.method name) _ plain .reference : Group L) rfl Group.straight_tidy
        (by rw [Group.straight_directives]; exact script.symm)
      rw [Group.straight_events] at whole
      rw [script]
      exact whole
  | some e =>
      have script := methodRoutine_of_stop name m stop
      rw [script]
      exact .within (.method name m) [] _ e
        (fun d mem => (d.isPlain_spec (plain d mem)).1) script.symm

theorem entry_emits (h : Accepting ready) (unit : String) (count : Nat)
    (count_le : count ≤ Token.limit) (routines : List String) (length : routines.length = count)
    (form : SwitchForm) :
    Emits ready (emitEntry unit (.ofCount count) routines form : Emit (Observed σ L) Unit)
      (fun result added => Follows [.entry form unit routines] (failure? result) added) := by
  rw [emitEntry_eq _ _ _ _ (length.trans (TokenIndex.size_ofCount count count_le).symm),
    TokenIndex.keys_ofCount count count_le]
  refine .after (h.follow_emits _) fun _ opening opening_eq => ?_
  refine .after h.fresh_emits fun default first first_eq => ?_
  refine .after (h.mapM_fresh_emits _) fun cases others found => ?_
  refine .after (h.perform_emits _) fun _ switched switched_eq => ?_
  refine (h.follow_emits _).mono fun result last written => ?_
  obtain ⟨_, rfl, rfl⟩ := written
  obtain ⟨keys_eq, others_eq⟩ := found
  obtain ⟨inner, ends, targets⟩ := tokenSwitch_spec form default cases count count_le keys_eq
  have case_count : cases.length = routines.length := by
    rw [length, ← positionKeys_length count, ← keys_eq, List.length_map]
  have whole := Follows.one (.entry form unit routines)
    (.entry unit _ inner default cases routines) rfl (Group.entry_tidy ends targets case_count)
    ⟨default, cases, length ▸ keys_eq, by rw [Group.entry_directives]⟩
  have events : (Group.entry unit _ inner default cases routines).events =
      opening ++ (first ++ (others ++ (switched ++ (entryBranches unit default
        (cases.zip routines)).map .directive))) := by
    rw [Group.entry_events, opening_eq, first_eq, others_eq, switched_eq]
    simp
  rw [events] at whole
  exact whole

/-- The token of a method leaves no trace in its routine. -/
theorem methods_eq (stem : String) (methods : List Method) :
    ((((List.range (markTokens methods).length).map (routineName stem)).zip
        (markTokens methods)).forM fun (name, m) => emitMethodRoutine name m : Emit σ Unit) =
      methods.zipIdx.forM fun arm => emitMethodRoutine (routineName stem arm.2) arm.1 := by
  have names_eq : (List.range (markTokens methods).length).map (routineName stem) =
      methods.zipIdx.map fun arm => routineName stem arm.2 := by
    rw [markTokens_length, List.range_eq_range', ← List.zipIdx_map_snd, List.map_map]
    rfl
  rw [names_eq, markTokens, List.zip_map', List.forM_eq_forM, List.forM_map]
  congr 1
  funext arm
  dsimp only
  rw [arm.1.mark_eq]
  rfl

theorem methods_emit (h : Accepting ready) (stem : String) (arms : List (Method × Nat)) :
    Emits ready (arms.forM fun arm => emitMethodRoutine (routineName stem arm.2) arm.1 :
        Emit (Observed σ L) Unit)
      (fun result added => Follows (arms.map fun arm => .method (routineName stem arm.2) arm.1)
        (failure? result) added) := by
  induction arms with
  | nil => exact .ok () .all
  | cons arm arms ih =>
      refine .bind (h.method_emits _ arm.1) (fun _ added first => ?_) fun e added first => ?_
      · exact ih.mono fun result later rest => first.append rest
      · exact first.broken _

theorem routines_emit (h : Accepting ready) (options : Options) (unit : String)
    (methods : List Method) (count_le : methods.length ≤ Token.limit) :
    Emits ready (emitRoutines options unit (.ofCount methods.length) (markTokens methods) :
        Emit (Observed σ L) O)
      (fun result added => ∃ body, added = body ++ closing (failure? result) ∧
        Follows (Part.dispatching options unit methods) (failure? result) body) := by
  rw [emitRoutines]
  dsimp only
  rw [methods_eq, markTokens_length]
  refine .bind (h.entry_emits unit _ count_le _ (by simp) options.form) (fun _ added first => ?_)
    fun e added first => ⟨added, (List.append_nil _).symm, first.broken _⟩
  refine .bind (h.methods_emit options.stem methods.zipIdx) (fun _ later second => ?_)
    fun e later second => ⟨added ++ later, (List.append_nil _).symm, first.append second⟩
  refine h.finish_emits.mono fun result last finished => ?_
  obtain ⟨⟨output, rfl⟩, rfl⟩ := finished
  exact ⟨added ++ later, (List.append_assoc _ _ _).symm, first.append second⟩

theorem opening_emits (h : Accepting ready) (options : Options) (unit : String) :
    Emits ready (emitOpening options unit : Emit (Observed σ L) Unit)
      (fun result added => ∃ body, added = .directive (.beginUnit unit options.base) :: body ∧
        Follows [.initializer options.base] (failure? result) body) := by
  refine .after (h.perform_emits _) fun _ first first_eq => ?_
  refine (h.initializer_emits options.base).mono fun result body follows => ?_
  exact ⟨body, by rw [first_eq]; rfl, follows⟩

/-- The result of a pass on an observed emitter, and what it notes. -/
theorem generate_emits (h : Accepting ready) (options : Options) (unit : String)
    (methods : List Method) (emitter : σ) (is_ready : ready emitter) :
    ∃ body, (generate options unit methods (⟨emitter, []⟩ : Observed σ L)).emitter.events =
        .directive (.beginUnit unit options.base) :: body ++
          closing (failure? (generate options unit methods
            (⟨emitter, []⟩ : Observed σ L)).result) ∧
      Follows (Part.ofUnit options unit methods)
        (failure? (generate options unit methods (⟨emitter, []⟩ : Observed σ L)).result) body := by
  obtain ⟨opened, s, added, opening, still_ready, body, rfl, first⟩ :=
    h.opening_emits options unit ⟨emitter, []⟩ is_ready
  cases opened with
  | error e =>
      rw [generate_of_unopened methods opening]
      exact ⟨body, (List.append_nil _).symm, first.broken _⟩
  | ok _ =>
      by_cases count_le : methods.length ≤ Token.limit
      · obtain ⟨output, t, added, routines, -, later, rfl, second⟩ :=
          h.routines_emit options unit methods count_le ⟨s, _⟩ still_ready
        rw [generate_of_routines methods count_le opening routines]
        dsimp only
        rw [failure?_map]
        exact ⟨body ++ later, by simp, first.append second⟩
      · have long := Nat.lt_of_not_le count_le
        rw [generate_of_long methods long opening]
        let routines := (List.range methods.length).map (routineName options.stem)
        have count : routines.length = methods.length := by simp [routines]
        have crowded := Follows.crowded (L := L) options.form unit routines
          (Part.ofMethods options.stem methods) (count.symm ▸ long)
        rw [count] at crowded
        exact ⟨body ++ [], by simp [closing, failure?], first.append crowded⟩

end Accepting

/-- A pass over a list on an emitter that accepts every call. It opens the unit and writes the
initializer, the entry point and the routine of each method in order, each of them whole and tidy,
and the unit is finished exactly when the pass succeeds. Where it fails, the error is that of the
method it has come to, whose routine is broken off there, or the list is too long and nothing is
written after the initializer. -/
theorem generate_protocol [Emitter σ L O] (ready : σ → Prop) (accepting : Accepting ready)
    (options : Options) (unit : String) (methods : List Method) (emitter : σ)
    (is_ready : ready emitter) :
    ∃ body, (generate options unit methods (⟨emitter, []⟩ : Observed σ L)).emitter.events =
        .directive (.beginUnit unit options.base) :: body ++
          closing (failure? (generate options unit methods emitter).result) ∧
      Follows (Part.ofUnit options unit methods)
        (failure? (generate options unit methods emitter).result) body := by
  rw [← (Observed.generate_eq options unit methods emitter []).1]
  exact accepting.generate_emits options unit methods emitter is_ready

/-! A recorder without a limit accepts every call. -/

theorem Recorder.accepting : Accepting fun r : Recorder => r.capacity = none where
  labels _ is_ready := is_ready
  performs d r is_ready :=
    ⟨_, record_accepted (.directive d) r (by rw [is_ready]; exact nofun), is_ready⟩
  finishes r is_ready :=
    ⟨(), _, record_accepted .finish r (by rw [is_ready]; exact nofun), is_ready⟩

/-- A method with one argument, of the given type. -/
def printMethod (param : Ty) : Method :=
  { name := "print"
    declaring := .named "Console"
    params := [param]
    ret := .void
    isStatic := true }

/-- A recorder that accepts every call. -/
def openRecorder : Recorder := { refusal := fun _ => .narrowingToVoid }

/-- A pass that goes through, and one that is broken off in the second of its methods. -/
theorem generate_protocol_of_recorder :
    (∃ body, (generate {} "U" [printMethod .object]
        (⟨openRecorder, []⟩ : Observed Recorder Nat)).emitter.events =
          .directive (.beginUnit "U" "Reflector") :: body ++ [.finish] ∧
      Follows [.initializer "Reflector", .entry .lookup "U" ["m0"],
        .method "m0" (printMethod .object)] none body) ∧
    ∃ body, (generate {} "U" [printMethod .object, printMethod .void]
        (⟨openRecorder, []⟩ : Observed Recorder Nat)).emitter.events =
          .directive (.beginUnit "U" "Reflector") :: body ++ [] ∧
      Follows [.initializer "Reflector", .entry .lookup "U" ["m0", "m1"],
        .method "m0" (printMethod .object), .method "m1" (printMethod .void)]
        (some .narrowingToVoid) body := by
  have whole : failure? (generate {} "U" [printMethod .object] openRecorder).result = none := by
    decide +kernel
  have broken : failure? (generate {} "U" [printMethod .object, printMethod .void]
      openRecorder).result = some .narrowingToVoid := by decide +kernel
  have first := generate_protocol _ Recorder.accepting {} "U" [printMethod .object] openRecorder rfl
  have second := generate_protocol _ Recorder.accepting {} "U"
    [printMethod .object, printMethod .void] openRecorder rfl
  rw [whole] at first
  rw [broken] at second
  exact ⟨first, second⟩

end TokenDispatch
