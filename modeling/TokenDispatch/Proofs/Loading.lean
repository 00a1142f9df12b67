import TokenDispatch.Proofs.ControlFlow
import TokenDispatch.Proofs.Dispatch

/-!
What a unit must provide to be loaded. Its base is checked first, then the two routines that callers
from outside rely on, then its own special calls in the order of the code; whatever is missing first
is the error, and nothing has run by then. In a unit that passes, no run is ever left with a call
that leads nowhere.
-/

namespace TokenDispatch

namespace CodeUnit

variable (u : CodeUnit)

/-- The first routine of this name and descriptor may be called from outside. -/
def Exports (name : String) (sig : Signature) : Prop :=
  ∃ before r after, u.routines.toList = before ++ r :: after ∧
    (∀ s ∈ before, ¬ (s.name = name ∧ s.descriptor = sig.descriptor)) ∧
    r.name = name ∧ r.descriptor = sig.descriptor ∧ r.access = .exported

/-- What a special call names is a routine of the unit, or else something that its base answers. -/
def Provides (site : CallSite) : Prop :=
  (site.owner = u.name ∧
    ∃ r ∈ u.routines, r.name = site.name ∧ r.descriptor = site.descriptor) ∨
  ((site.owner = u.name ∨ site.owner = u.base) ∧
    ((site.name = RoutineName.initializer ∧
        site.descriptor = Signature.initializer.descriptor) ∨
      (site.name = RoutineName.fallback ∧ site.descriptor = Signature.dispatch.descriptor)))

/-- A special call that names nothing. -/
def Dangles (site : CallSite) : Prop := site.kind = .special ∧ ¬ u.Provides site

/-- A call that names nothing in this routine, and none before it in the order of the code. -/
def DanglesFirst (r : Routine) (site : CallSite) : Prop :=
  u.Dangles site ∧ ∃ before after front back,
    u.routines.toList = before ++ r :: after ∧ r.sites = front ++ site :: back ∧
    (∀ s ∈ before, ∀ other ∈ s.sites, ¬ u.Dangles other) ∧
    ∀ other ∈ front, ¬ u.Dangles other

variable {u}

theorem exported?_isSome_iff (name : String) (sig : Signature) :
    (u.exported? name sig).isSome = true ↔ u.Exports name sig := by
  have answers_iff (r : Routine) : r.answersTo name sig.descriptor = true ↔
      r.name = name ∧ r.descriptor = sig.descriptor := by
    rw [Routine.answersTo, Bool.and_eq_true, beq_iff_eq, beq_iff_eq]
  rw [Option.isSome_iff_exists, exported?, find?, ← Array.find?_toList]
  constructor
  · rintro ⟨r, found⟩
    obtain ⟨found, exported⟩ := Option.filter_eq_some_iff.mp found
    obtain ⟨answers, before, after, split, others⟩ := List.find?_eq_some_iff_append.mp found
    obtain ⟨name_eq, descriptor_eq⟩ := (answers_iff r).mp answers
    refine ⟨before, r, after, split, fun s mem same => ?_, name_eq, descriptor_eq,
      beq_iff_eq.mp exported⟩
    simpa [(answers_iff s).mpr same] using others s mem
  · rintro ⟨before, r, after, split, others, name_eq, descriptor_eq, exported⟩
    refine ⟨r, Option.filter_eq_some_iff.mpr ⟨?_, beq_iff_eq.mpr exported⟩⟩
    refine List.find?_eq_some_iff_append.mpr
      ⟨(answers_iff r).mpr ⟨name_eq, descriptor_eq⟩, before, after, split, fun s mem => ?_⟩
    simpa using fun answers => others s mem ((answers_iff s).mp answers)

theorem find?_isSome_iff (name descriptor : String) :
    (u.find? name descriptor).isSome = true ↔
      ∃ r ∈ u.routines, r.name = name ∧ r.descriptor = descriptor := by
  rw [find?, Array.find?_isSome]
  simp only [Routine.answersTo, Bool.and_eq_true, beq_iff_eq]

theorem inherited?_isSome_iff (site : CallSite) :
    (inherited? site).isSome = true ↔
      (site.name = RoutineName.initializer ∧
        site.descriptor = Signature.initializer.descriptor) ∨
      (site.name = RoutineName.fallback ∧ site.descriptor = Signature.dispatch.descriptor) := by
  have initializer_iff : namesInitializer site = true ↔ site.name = RoutineName.initializer ∧
      site.descriptor = Signature.initializer.descriptor := by
    rw [namesInitializer, Bool.and_eq_true, beq_iff_eq, beq_iff_eq]
  have fallback_iff : namesFallback site = true ↔ site.name = RoutineName.fallback ∧
      site.descriptor = Signature.dispatch.descriptor := by
    rw [namesFallback, Bool.and_eq_true, beq_iff_eq, beq_iff_eq]
  rw [← initializer_iff, ← fallback_iff, inherited?]
  cases namesInitializer site <;> cases namesFallback site <;> simp

/-- A special call is linked exactly if what it names is provided. -/
theorem link?_isSome_iff (site : CallSite) (special : site.kind = .special) :
    (u.link? site).isSome = true ↔ u.Provides site := by
  unfold link?
  rw [special, Provides, ← find?_isSome_iff, ← inherited?_isSome_iff]
  dsimp only
  rw [Option.isSome_or, Bool.or_eq_true]
  have own_iff : site.owner = u.name ↔ (site.owner == u.name) = true := beq_iff_eq.symm
  have base_iff : site.owner = u.base ↔ (site.owner == u.base) = true := beq_iff_eq.symm
  rw [own_iff, base_iff]
  cases site.owner == u.name <;> cases site.owner == u.base <;> simp

/-- Whether linking reports a call. -/
def reports (u : CodeUnit) (site : CallSite) : Bool :=
  site.kind == .special && (u.link? site).isNone

theorem reports_iff (site : CallSite) : u.reports site = true ↔ u.Dangles site := by
  rw [reports, Bool.and_eq_true, beq_iff_eq, Dangles]
  refine and_congr_right fun special => ?_
  rw [← link?_isSome_iff site special, Option.isNone_iff_eq_none, Option.not_isSome_iff_eq_none]

theorem not_reports_iff (site : CallSite) : (!u.reports site) = true ↔ ¬ u.Dangles site := by
  rw [← reports_iff, Bool.not_eq_true', Bool.not_eq_true]

theorem sites_eq : u.sites = u.routines.toList.flatMap fun r => r.sites.map (Prod.mk r) := by
  rw [sites]
  congr 1
  funext r
  rw [Routine.sites, List.map_filterMap]
  congr 1
  funext i
  cases i <;> rfl

/-- Linking looks through the routines one after another. -/
theorem unresolved?_eq : u.unresolved? =
    u.routines.toList.findSome? fun r => (r.sites.find? u.reports).map (Prod.mk r) := by
  rw [unresolved?, sites_eq, List.find?_flatMap]
  simp only [List.find?_map]
  rfl

theorem find?_reports_eq_none_iff (r : Routine) :
    r.sites.find? u.reports = none ↔ ∀ site ∈ r.sites, ¬ u.Dangles site := by
  simp only [List.find?_eq_none, reports_iff]

theorem unresolved?_eq_some_iff (r : Routine) (site : CallSite) :
    u.unresolved? = some (r, site) ↔ u.DanglesFirst r site := by
  rw [unresolved?_eq, List.findSome?_eq_some_iff]
  simp only [Option.map_eq_none_iff, find?_reports_eq_none_iff, Option.map_eq_some_iff]
  constructor
  · rintro ⟨before, s, after, split, ⟨other, found, same⟩, clean⟩
    cases same
    obtain ⟨reported, front, back, code, passed⟩ := List.find?_eq_some_iff_append.mp found
    refine ⟨(reports_iff site).mp reported, before, after, front, back, split, code, clean, ?_⟩
    exact fun other mem => (not_reports_iff other).mp (passed other mem)
  · rintro ⟨dangles, before, after, front, back, split, code, clean, passed⟩
    refine ⟨before, r, after, split, ⟨site, ?_, rfl⟩, clean⟩
    refine List.find?_eq_some_iff_append.mpr
      ⟨(reports_iff site).mpr dangles, front, back, code, fun other mem => ?_⟩
    exact (not_reports_iff other).mpr (passed other mem)

theorem unresolved?_eq_none_iff :
    u.unresolved? = none ↔ ∀ r ∈ u.routines, ∀ site ∈ r.sites, ¬ u.Dangles site := by
  rw [unresolved?_eq, List.findSome?_eq_none_iff]
  simp only [Option.map_eq_none_iff, find?_reports_eq_none_iff, Array.mem_toList_iff]

end CodeUnit

/-- The errors that a unit is refused with, before any of its code runs. -/
inductive Program.Refuses (p : Program) : LoadError → Prop
  | base (other : p.unit.base ≠ p.contract.name) :
      Refuses p (.baseMismatch p.unit.name p.contract.name p.unit.base)
  | initializer (fits : p.unit.base = p.contract.name)
      (missing : ¬ p.unit.Exports RoutineName.initializer .initializer) :
      Refuses p (.missingRoutine p.unit.name RoutineName.initializer
        Signature.initializer.descriptor)
  | entry (fits : p.unit.base = p.contract.name)
      (initializer : p.unit.Exports RoutineName.initializer .initializer)
      (missing : ¬ p.unit.Exports RoutineName.entry .dispatch) :
      Refuses p (.missingRoutine p.unit.name RoutineName.entry Signature.dispatch.descriptor)
  | call (fits : p.unit.base = p.contract.name)
      (initializer : p.unit.Exports RoutineName.initializer .initializer)
      (entry : p.unit.Exports RoutineName.entry .dispatch) (r : Routine) (site : CallSite)
      (dangles : p.unit.DanglesFirst r site) :
      Refuses p (.unresolvedCall r.name site.owner site.name site.descriptor)

namespace Program

variable {p : Program}

theorem required_of_exports (name : String) (sig : Signature) (exports_ : p.unit.Exports name sig) :
    ∃ r, p.required name sig = .ok r := by
  obtain ⟨r, exported⟩ :=
    Option.isSome_iff_exists.mp ((CodeUnit.exported?_isSome_iff name sig).mpr exports_)
  exact ⟨r, by rw [required, exported]⟩

theorem required_of_missing (name : String) (sig : Signature)
    (missing : ¬ p.unit.Exports name sig) :
    p.required name sig = .error (.missingRoutine p.unit.name name sig.descriptor) := by
  rw [← CodeUnit.exported?_isSome_iff, Option.not_isSome_iff_eq_none] at missing
  rw [required, missing]

/-- Linking makes its checks in the order of the refusals. -/
theorem linked_of_refuses (e : LoadError) (refuses : p.Refuses e) : p.linked = .error e := by
  unfold linked
  cases refuses with
  | base other =>
      rw [if_pos other]
      rfl
  | initializer fits missing =>
      rw [if_neg (not_not_intro fits), required_of_missing _ _ missing]
      rfl
  | entry fits initializer missing =>
      obtain ⟨init, init_eq⟩ := required_of_exports _ _ initializer
      rw [if_neg (not_not_intro fits), init_eq, required_of_missing _ _ missing]
      rfl
  | call fits initializer entry r site dangles =>
      obtain ⟨init, init_eq⟩ := required_of_exports _ _ initializer
      obtain ⟨entry, entry_eq⟩ := required_of_exports _ _ entry
      rw [if_neg (not_not_intro fits), init_eq, entry_eq,
        (CodeUnit.unresolved?_eq_some_iff r site).mpr dangles]
      rfl

/-- A unit that nothing refuses is linked. -/
theorem linked_of_accepted (accepted : ∀ e, ¬ p.Refuses e) :
    (∃ routines, p.linked = .ok routines) ∧ p.unit.unresolved? = none := by
  have fits : p.unit.base = p.contract.name :=
    Classical.byContradiction fun other => accepted _ (.base other)
  have initializer : p.unit.Exports RoutineName.initializer .initializer :=
    Classical.byContradiction fun missing => accepted _ (.initializer fits missing)
  have entry : p.unit.Exports RoutineName.entry .dispatch :=
    Classical.byContradiction fun missing => accepted _ (.entry fits initializer missing)
  have resolved : p.unit.unresolved? = none := by
    refine Option.eq_none_iff_forall_ne_some.mpr fun (r, site) found => ?_
    have dangles := (CodeUnit.unresolved?_eq_some_iff r site).mp found
    exact accepted _ (.call fits initializer entry r site dangles)
  obtain ⟨init, init_eq⟩ := required_of_exports _ _ initializer
  obtain ⟨entry, entry_eq⟩ := required_of_exports _ _ entry
  refine ⟨⟨(init, entry), ?_⟩, resolved⟩
  unfold linked
  rw [if_neg (not_not_intro fits), init_eq, entry_eq, resolved]
  rfl

theorem linked_error_iff (e : LoadError) : p.linked = .error e ↔ p.Refuses e := by
  refine ⟨fun failed => Classical.byContradiction fun accepted => ?_, linked_of_refuses e⟩
  have none_refuses (other : LoadError) : ¬ p.Refuses other := by
    intro refuses
    cases failed.symm.trans (linked_of_refuses other refuses)
    exact accepted refuses
  obtain ⟨⟨routines, linked⟩, -⟩ := linked_of_accepted none_refuses
  cases failed.symm.trans linked

/-- In a unit all of whose special calls lead somewhere, a fault that one does not comes from
outside. -/
theorem run_linked (resolved : p.unit.unresolved? = none) (r : Routine)
    (mem : r ∈ p.unit.routines) (steps : Nat) (locals : List Operand) (w v : World)
    (defect : Defect) (linking : defect = .noReceiver ∨ ∃ kind owner name,
      defect = .unlinked kind owner name)
    (failed : p.runRoutine steps r locals w = (.failed (.internal defect), v)) :
    ∃ u, w.Before u ∧ u.EndsIn v (.internal defect) := by
  obtain ⟨c, u, goes, before, step⟩ := p.run_failed steps _ w v _ failed
  have meets := p.keeps_unit.goes (.alone mem) goes
  have control : defect.isControl = true := by
    obtain rfl | ⟨kind, owner, name, rfl⟩ := linking <;> rfl
  obtain raised | ended | ⟨site, here, special, unlinked, -⟩ := step_failed control c step
  · exact ⟨u, before, raised⟩
  · rw [Program.step, ended] at step
    cases step
    obtain other | ⟨kind, owner, name, other⟩ := linking <;> cases other
  · have called := c.frame.routine.mem_sites_of_call _ site here
    have provided := CodeUnit.unresolved?_eq_none_iff.mp resolved _ meets.frame site called
    refine absurd ⟨special, fun provides => ?_⟩ provided
    rw [← CodeUnit.link?_isSome_iff site special, unlinked] at provides
    cases provides

end Program

namespace Dispatcher

/-- A unit is refused for what it lacks first, whatever the number of steps, and then the world is
as it was. In a unit that is loaded, no routine is ever left with a call that leads nowhere: a fault
that says so was raised outside. -/
theorem load_refused_iff (steps : Nat) (p : Program) (w : World) :
    (∀ e v, (∀ fault, e ≠ .initializer fault) →
      (load steps p w = (.failed e, v) ↔ p.Refuses e ∧ v = w)) ∧
    ∀ d v, load steps p w = (.done d, v) → d.toProgram = p ∧
      ∀ r ∈ p.unit.routines, ∀ (more : Nat) (locals : List Operand) (s t : World)
        (defect : Defect), (defect = .noReceiver ∨ ∃ kind owner name,
          defect = .unlinked kind owner name) →
        d.runRoutine more r locals s = (.failed (.internal defect), t) →
        ∃ u, s.Before u ∧ u.EndsIn t (.internal defect) := by
  constructor
  · intro e v other
    rw [← Program.linked_error_iff, load]
    cases linked : p.linked with
    | error found =>
        simp [eq_comm]
    | ok routines =>
        obtain ⟨init, entry⟩ := routines
        simp only [reduceCtorEq, false_and, iff_false]
        intro failed
        split at failed
        · cases failed
        · cases failed
          exact other _ rfl
        · cases failed
  · intro d v loaded
    obtain ⟨same, init, linked⟩ := load_done steps p w v d loaded
    refine ⟨same, fun r mem more locals s t defect linking failed => ?_⟩
    have accepted (e : LoadError) : ¬ p.Refuses e := by
      intro refuses
      cases linked.symm.trans (Program.linked_of_refuses e refuses)
    have resolved := (Program.linked_of_accepted accepted).2
    rw [same] at failed
    exact Program.run_linked resolved r mem more locals s t defect linking failed

/-! Units written by hand, with a base that reports a fault of linking itself. -/

/-- A unit whose entry point makes one special call, on the unit itself. -/
def handUnit (callee : String) : CodeUnit where
  name := "Hand"
  base := Contract.defaultName
  routines := #[
    { access := .exported
      name := RoutineName.initializer
      sig := .initializer
      descriptor := Signature.initializer.descriptor
      code := #[.retVoid]
      maxStack := 0
      maxLocals := 1 },
    { access := .exported
      name := RoutineName.entry
      sig := .dispatch
      descriptor := Signature.dispatch.descriptor
      code := #[.loadLocal Slot.self, .loadLocal Slot.token, .loadLocal Slot.receiver,
        .loadLocal Slot.arguments,
        .call { kind := .special, owner := "Hand", name := callee, sig := .dispatch }, .ret]
      maxStack := 4
      maxLocals := 4 }]

def strayContract : Contract where
  fallback _ _ _ heap := (.error (.internal .noReceiver), heap)

theorem load_refused_iff_of_hand :
    load 0 ⟨handUnit "missing", {}, .rejecting⟩ {} =
      (.failed (.unresolvedCall RoutineName.entry "Hand" "missing" Signature.dispatch.descriptor),
        {}) ∧
    ∃ d v, load 4 ⟨handUnit RoutineName.fallback, {}, strayContract⟩ {} = (.done d, v) ∧
      ∃ r t u, d.runRoutine 5 r [.ref .null, .int 7, .ref .null, .ref .null] {} =
          (.failed (.internal .noReceiver), t) ∧
        World.EndsIn u t (.internal .noReceiver) := by
  constructor
  · exact ((load_refused_iff 0 ⟨handUnit "missing", {}, .rejecting⟩ {}).1 _ {} (by simp)).mpr
      ⟨(Program.linked_error_iff _).mp rfl, rfl⟩
  · let p : Program := ⟨handUnit RoutineName.fallback, {}, strayContract⟩
    obtain ⟨d, done⟩ := Outcome.eq_done_of_isDone (load 4 p {}).1 rfl
    have loaded : load 4 p {} = (.done d, (load 4 p {}).2) := Prod.ext done rfl
    obtain ⟨same, runs⟩ := (load_refused_iff 4 p {}).2 d _ loaded
    obtain ⟨r, get⟩ : ∃ r, p.unit.routines[1]? = some r := ⟨_, rfl⟩
    have failed : d.runRoutine 5 r [.ref .null, .int 7, .ref .null, .ref .null] {} =
        (.failed (.internal .noReceiver),
          (p.runRoutine 5 r [.ref .null, .int 7, .ref .null, .ref .null] {}).2) := by
      rw [same]
      cases get
      exact Prod.ext rfl rfl
    obtain ⟨u, -, raised⟩ := runs r (Array.mem_of_getElem? get) 5 _ _ _ _ (.inl rfl) failed
    exact ⟨d, _, loaded, r, _, u, failed, raised⟩

end Dispatcher

end TokenDispatch
