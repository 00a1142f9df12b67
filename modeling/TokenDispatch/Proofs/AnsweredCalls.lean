import TokenDispatch.Proofs.Endings
import TokenDispatch.Proofs.HostCalls
import TokenDispatch.Proofs.Loading
import TokenDispatch.Proofs.Requests
import TokenDispatch.Proofs.WellFormed

/-!
Who answers a call. The search goes by names and descriptors alone, in the environment as within a
unit. Where class names are delimited that is enough: what answers has the very signature of the
call.
-/

namespace TokenDispatch

/-- What a call finds bears its name, and its signature as far as descriptors tell signatures
apart. -/
structure CallSite.Suits (site : CallSite) (name : String) (sig : Signature) : Prop where
  name_eq : name = site.name
  sig_eq : site.sig.Delimited → sig.Delimited → sig = site.sig

theorem CallSite.suits_of_descriptor {site : CallSite} {name : String} {sig : Signature}
    (name_eq : name = site.name) (descriptor_eq : sig.descriptor = site.sig.descriptor) :
    site.Suits name sig :=
  ⟨name_eq, fun site_delimited delimited =>
    sig.eq_of_descriptor site.sig delimited site_delimited descriptor_eq⟩

/-! Host methods. -/

namespace Environment

variable {env : Environment} {r : Request}

theorem target_declares {m : HostMethod} (ok : env.target r = .ok m) :
    env.Declares m r.name r.sig.descriptor := by
  rw [target] at ok
  split at ok
  · exact (resolveStatic_ok ok).1
  · obtain ⟨-, -, declares, -⟩ := resolveVirtual_ok ok
    exact declares
  · obtain ⟨-, -, -, declares, -⟩ := resolveInterface_ok ok
    exact declares

/-- All that a request calls is a method that is registered under its name and descriptor. -/
theorem perform_makes (P : OutsideCall → Prop) (args : List Operand)
    (declared : ∀ m result, env.Declares m r.name r.sig.descriptor →
      P (.host m r.receiver? args result)) : (env.perform r args).Makes P := by
  intro w
  cases target : env.target r with
  | error fault =>
      rw [perform_of_error target]
      exact .same w P
  | ok m =>
      obtain accepts | ⟨fault, misfits⟩ := m.accepts_or_misfits args
      · rw [perform_runs target accepts w]
        exact .push _ rfl (declared m _ (target_declares target))
      · rw [perform_of_misfits target misfits]
        exact .same w P

end Environment

/-- A call outside that is no call of a host method, or one of a method that suits a call site. -/
def OutsideCall.Answers (site : CallSite) : OutsideCall → Prop
  | .host h _ _ _ => site.Suits h.name h.sig
  | .init _ | .fallback _ _ _ _ => True

namespace Program

variable {p : Program} {site : CallSite} {callers : List Caller}

theorem callOutside_answers (receiver : Option Value) (args : List Operand) :
    (p.callOutside site receiver args).Makes (·.Answers site) := by
  intro w
  rw [callOutside_eq]
  cases request : site.request? receiver with
  | none => exact .same w _
  | some r =>
      have same : r.name = site.name ∧ r.sig = site.sig := by
        unfold CallSite.request? at request
        split at request <;> cases request <;> exact ⟨rfl, rfl⟩
      refine Environment.perform_makes _ args (fun m result declares => ?_) w
      have descriptor_eq := declares.descriptor_eq
      rw [same.2] at descriptor_eq
      exact CallSite.suits_of_descriptor (declares.name_eq.trans same.1) descriptor_eq

theorem answer_adds {action : Exec (Option Operand)} {P : OutsideCall → Prop}
    (makes : action.Makes P) (f : Frame) (w : World) :
    w.Adds (answer action f site callers w).2 P := by
  have made := makes w
  rw [answer]
  generalize action w = outcome at made ⊢
  obtain ⟨fault | result, v⟩ := outcome
  · exact made
  · exact made

theorem enter_answers (receiver : Option Value) (args : List Operand) (f : Frame) (w : World) :
    w.Adds (p.enter site receiver args f callers w).2 (·.Answers site) := by
  rw [enter]
  split
  · split <;> exact .same w _
  · refine answer_adds (fun w => ?_) f w
    rw [runInit_eq]
    exact .push (.init (p.contract.init w.heap).1) rfl trivial
  · exact answer_adds (p.callFallback_makes _ args fun _ _ _ _ => trivial) f w
  · exact answer_adds (callOutside_answers receiver args) f w

theorem step_answers (c : Config) (w : World)
    (here : c.frame.routine.code[c.frame.position]? = some (.call site)) :
    w.Adds (p.step c w).2 (·.Answers site) := by
  rw [step_call site c.frame c.callers here, call]
  split
  · exact .same w _
  · split
    · exact .same w _
    · exact enter_answers _ _ _ w

/-- Nothing outside is called but from call sites. -/
theorem step_adds (c : Config) (w : World) : w.Adds (p.step c w).2 fun call => ∃ site,
    c.frame.routine.code[c.frame.position]? = some (.call site) ∧ call.Answers site := by
  cases here : c.frame.routine.code[c.frame.position]? with
  | none =>
      rw [step, here]
      exact .same w _
  | some i =>
      by_cases within : i.isLocal = true
      · rw [step_local i within c.frame c.callers here]
        exact .same w _
      · cases i with
        | call site => exact (step_answers c w here).mono fun call answers => ⟨site, rfl, answers⟩
        | ret =>
            rw [step_ret c.frame c.callers here]
            split <;> exact .same w _
        | retVoid =>
            rw [step_retVoid c.frame c.callers here]
            exact .same w _
        | _ => exact absurd rfl within

/-- A call outside that suits a call site, to which the machine comes from a configuration. -/
def MadeFrom (p : Program) (c : Config) (call : OutsideCall) : Prop :=
  ∃ d site, Relation.ReflTransGen p.Goes c d ∧
    d.frame.routine.code[d.frame.position]? = some (.call site) ∧ call.Answers site

theorem run_adds (steps : Nat) (c : Config) (w : World) :
    w.Adds (p.run steps c w).2 (p.MadeFrom c) := by
  induction steps generalizing c w with
  | zero => exact .same w _
  | succ steps ih =>
      have first : w.Adds (p.step c w).2 (p.MadeFrom c) :=
        (p.step_adds c w).mono fun call ⟨site, here, answers⟩ => ⟨c, site, .refl, here, answers⟩
      rw [run]
      cases ran : p.step c w with
      | mk outcome v =>
          rw [ran] at first
          cases outcome with
          | returned _ | failed _ => exact first
          | next e =>
              refine first.trans ((ih e v).mono fun call made => ?_) (p.run_records steps e v)
              obtain ⟨d, site, run, here, answers⟩ := made
              exact ⟨d, site, .head ⟨w, v, ran⟩ run, here, answers⟩

end Program

/-! Routines of a unit. -/

/-- The descriptors that a unit keeps are those of the signatures beside them. -/
def CodeUnit.Described (u : CodeUnit) : Prop :=
  ∀ r ∈ u.routines, r.descriptor = r.sig.descriptor ∧
    ∀ site ∈ r.sites, site.descriptor = site.sig.descriptor

instance (u : CodeUnit) : Decidable u.Described :=
  inferInstanceAs (Decidable (∀ r ∈ u.routines, r.descriptor = r.sig.descriptor ∧
    ∀ site ∈ r.sites, site.descriptor = site.sig.descriptor))

theorem CodeUnit.WellFormed.described {u : CodeUnit} (formed : u.WellFormed) : u.Described := by
  intro r mem
  refine ⟨(formed.routines r mem).descriptor_eq, fun site called => ?_⟩
  obtain ⟨position, here⟩ := r.call_of_mem_sites site called
  exact (formed.routines r mem).fits (.call site) (Array.mem_of_getElem? here)

/-- Whatever an assembler has been used for, a unit that it finishes is described. -/
theorem Assembler.Sound.described {a a' : Assembler} (sound : a.Sound) {u : CodeUnit}
    (finished : Succeeds finish a u a') : u.Described := by
  obtain ⟨name, base, -, -, rfl, -⟩ := (finish_iff a a' u).mp finished
  exact CodeUnit.WellFormed.described ⟨sound.distinct.nodup, sound.closed⟩

theorem CodeUnit.Described.suits {u : CodeUnit} (described : u.Described) {caller r : Routine}
    {site : CallSite} (mem : caller ∈ u.routines) (called : site ∈ caller.sites)
    (linked : u.link? site = some (.routine r)) : site.Suits r.name r.sig := by
  have found := (u.find?_of_link? site r linked).2.2
  have answers := Array.find?_some found
  simp only [Routine.answersTo, Bool.and_eq_true, beq_iff_eq] at answers
  obtain ⟨name_eq, descriptor_eq⟩ := answers
  refine CallSite.suits_of_descriptor name_eq ?_
  rw [← (described r (Array.mem_of_find?_eq_some found)).1, descriptor_eq]
  exact (described caller mem).2 site called

/-- Each routine suits the call that waits for it. -/
def Routine.AnswersAll : Routine → List Caller → Prop
  | _, [] => True
  | r, caller :: callers =>
      caller.site.Suits r.name r.sig ∧ caller.frame.routine.AnswersAll callers

def Config.Answered (c : Config) : Prop := c.frame.routine.AnswersAll c.callers

namespace Program

variable {p : Program} {c d : Config}

theorem Moves.keeps_answered (moves : p.Moves c d) (described : p.unit.Described)
    (mem : c.frame.routine ∈ p.unit.routines) (answered : c.Answered) : d.Answered := by
  cases moves with
  | @exec f g i callers here within ok =>
      obtain ⟨position, stack, rfl⟩ := f.next.exec_eq _ g i within ok
      exact answered
  | @enter f g site r receiver args callers here takes count linked =>
      obtain ⟨stack, rfl, -⟩ := takes
      exact ⟨described.suits mem (f.routine.mem_sites_of_call _ site here) linked, answered⟩
  | @answered f g k site result callers here takes ok =>
      obtain ⟨stack, rfl, -⟩ := takes
      obtain ⟨stack', rfl⟩ := Frame.receive_eq _ k site result ok
      exact answered
  | @returned f g caller result callers ok =>
      obtain ⟨stack, rfl⟩ := caller.frame.receive_eq g caller.site result ok
      exact answered.2

theorem goes_answered (described : p.unit.Described) {r : Routine} (mem : r ∈ p.unit.routines)
    (locals : List Operand)
    (run : Relation.ReflTransGen p.Goes ⟨{ routine := r, locals := locals }, []⟩ c) :
    c.Answered := by
  induction run with
  | refl => trivial
  | tail run goes ih =>
      obtain ⟨w, v, next⟩ := goes
      have meets := p.keeps_unit.goes (.alone mem) run
      exact (moves_of_next next).keeps_answered described meets.frame ih

/-- Delimited signatures are told apart by their descriptors, and every unit that is assembled keeps
the right ones. So a step from a call site calls no host method of another signature, each host
method that a run calls suits a call site that the run came to, and at any time of a run each
routine of the unit has the signature of the call that waits for it. -/
theorem answered_by_signature :
    (∀ sig other : Signature, sig.Delimited → other.Delimited →
      (sig.descriptor = other.descriptor ↔ sig = other)) ∧
    (∀ (calls : List Assembler.Call) (u : CodeUnit) (a : Assembler),
      Succeeds Assembler.finish (Assembler.drive {} calls) u a → u.Described) ∧
    ∀ p : Program,
      (∀ (c : Config) (w : World) (site : CallSite),
        c.frame.routine.code[c.frame.position]? = some (.call site) →
        w.Adds (p.step c w).2 (·.Answers site)) ∧
      (∀ (steps : Nat) (c : Config) (w : World), w.Adds (p.run steps c w).2 (p.MadeFrom c)) ∧
      (p.unit.Described → ∀ r ∈ p.unit.routines, ∀ (locals : List Operand) (c : Config),
        Relation.ReflTransGen p.Goes ⟨{ routine := r, locals := locals }, []⟩ c → c.Answered) := by
  refine ⟨fun sig other delimited other_delimited => ?_, fun calls u a finished => ?_,
    fun p => ⟨fun c w site here => step_answers c w here, p.run_adds, ?_⟩⟩
  · exact ⟨sig.eq_of_descriptor other delimited other_delimited, congrArg Signature.descriptor⟩
  · exact (Assembler.Sound.start.drive calls).described finished
  · exact fun described r mem locals c run => goes_answered described mem locals run

/-- Two parameters look like one whose class name holds the sign that ends class names. -/
example : Signature.descriptor ⟨[.named "A;LB"], .void⟩ =
    Signature.descriptor ⟨[.named "A", .named "B"], .void⟩ := by decide

/-- Odd class names, and an entry point that calls itself. -/
theorem answered_by_signature_of_odd :
    Signature.descriptor ⟨[.named "[I", .named "Object[]"], .named ""⟩ ≠
      Signature.descriptor ⟨[.array (.prim .int), .array (.named "Object")], .named ""⟩ ∧
    ∃ p : Program, p.unit.Described ∧ ∃ r ∈ p.unit.routines, ∃ locals c,
      Relation.ReflTransGen p.Goes ⟨{ routine := r, locals := locals }, []⟩ c ∧
        c.callers.length = 2 ∧ c.Answered := by
  obtain ⟨apart, -, programs⟩ := answered_by_signature
  constructor
  · exact mt (apart _ _ (by decide) (by decide)).mp (by decide)
  · let p : Program := ⟨Dispatcher.handUnit RoutineName.entry, {}, .rejecting⟩
    have described : p.unit.Described := by decide
    obtain ⟨r, get⟩ : ∃ r, p.unit.routines[1]? = some r := ⟨_, rfl⟩
    have mem := Array.mem_of_getElem? get
    let locals : List Operand := [.ref .null, .int 7, .ref .null, .ref .null]
    have run := p.goes_advance 10 ⟨{ routine := r, locals := locals }, []⟩ {}
    refine ⟨p, described, r, mem, locals, _, run, ?_,
      (programs p).2.2 described r mem locals _ run⟩
    cases get
    rfl

end Program

end TokenDispatch
