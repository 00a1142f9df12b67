import TokenDispatch.Proofs.Defects
import TokenDispatch.Proofs.FrameInvariants
import TokenDispatch.Proofs.Linking

/-!
Faults that say that control has nowhere to go. On its own the machine raises one in two places
only: behind the last instruction of a routine, and at a special call that is linked to nothing. A
call outside may raise any fault, and then it is the last on record.
-/

namespace TokenDispatch

/-- Whether a defect says that control has nowhere to go. -/
def Defect.isControl : Defect → Bool
  | endOfRoutine _ | noReceiver | unlinked .. => true
  | _ => false

/-- A result that is no fault of control. -/
def OnCourse {α : Type} (x : Except Fault α) : Prop :=
  ∀ defect, defect.isControl = true → x ≠ .error (.internal defect)

namespace OnCourse

variable {α β : Type}

theorem ok (a : α) : OnCourse (.ok a : Except Fault α) := nofun

theorem of_noDefect {x : Except Fault α} (h : NoDefect x) : OnCourse x := fun defect _ => h defect

theorem bind {x : Except Fault α} {f : α → Except Fault β} (hx : OnCourse x)
    (hf : ∀ a, OnCourse (f a)) : OnCourse (x >>= f) := by
  cases x with
  | error fault => exact fun defect control same => hx defect control (by cases same; rfl)
  | ok a => exact hf a

/-- Any other defect. -/
theorem of_other (defect : Defect) (other : defect.isControl = false) :
    OnCourse (.error (.internal defect) : Except Fault α) := by
  intro control_defect control same
  cases same
  exact absurd (control.symm.trans other) (by decide)

variable (f : Frame)

theorem pop : OnCourse f.pop := by
  rw [Frame.pop]
  split
  · exact ok _
  · exact of_other _ rfl

theorem popReference : OnCourse f.popReference := by
  apply bind (pop f)
  rintro ⟨x | v, g⟩
  · exact of_other _ rfl
  · exact ok _

theorem popPrimitive : OnCourse f.popPrimitive := by
  apply bind (pop f)
  rintro ⟨x | v, g⟩
  · exact ok _
  · exact of_other _ rfl

theorem popInt : OnCourse f.popInt := by
  apply bind (popPrimitive f)
  rintro ⟨x, g⟩
  cases x with
  | int n => exact ok _
  | _ => exact of_other _ rfl

theorem popArguments (site : CallSite) : OnCourse (f.popArguments site) := by
  unfold Frame.popArguments
  dsimp only
  split
  · exact of_other _ rfl
  · exact ok _

theorem popReceiver (site : CallSite) : OnCourse (f.popReceiver site) := by
  rw [Frame.popReceiver]
  split
  · apply bind (popReference f)
    exact fun _ => ok _
  · exact ok _

theorem receive (site : CallSite) (result : Option Operand) :
    OnCourse (f.receive site result) := by
  unfold Frame.receive
  split
  · exact ok _
  · cases result with
    | some operand => exact ok _
    | none => exact of_other _ rfl

theorem checkCast (h : Hierarchy) (v : Value) (target : Ty) : OnCourse (h.checkCast v target) := by
  cases reference : target.isReference with
  | true => exact of_noDefect (NoDefect.checkCast h v target reference)
  | false =>
      rw [Hierarchy.checkCast, reference]
      exact of_other _ rfl

theorem exec (h : Hierarchy) (i : Instr Nat) : OnCourse (f.exec h i) := by
  cases i with
  | loadLocal slot =>
      rw [Frame.exec]
      split
      · exact ok _
      · exact of_other _ rfl
  | arrayLoad =>
      apply bind (popInt f)
      rintro ⟨index, g⟩
      apply bind (popReference g)
      rintro ⟨items, k⟩
      apply bind (of_noDefect (NoDefect.element items index))
      exact fun _ => ok _
  | unbox kind =>
      apply bind (popReference f)
      rintro ⟨v, g⟩
      apply bind (of_noDefect (NoDefect.unbox v kind))
      exact fun _ => ok _
  | checkCast target =>
      apply bind (popReference f)
      rintro ⟨v, g⟩
      apply bind (checkCast h v target)
      exact fun _ => ok _
  | box kind =>
      apply bind (popPrimitive f)
      rintro ⟨x, g⟩
      dsimp only
      split
      · exact ok _
      · exact of_other _ rfl
  | lookupSwitch default cases =>
      apply bind (popInt f)
      exact fun _ => ok _
  | tableSwitch low default targets =>
      apply bind (popInt f)
      exact fun _ => ok _
  | pushInt _ | pushNull | call _ | ret | retVoid => exact ok _

end OnCourse

/-- An action that raises no fault of control on its own. -/
def Exec.OnCourse {α : Type} (x : Exec α) : Prop :=
  ∀ w u defect, defect.isControl = true → x w = (.error (.internal defect), u) →
    w.EndsIn u (.internal defect)

namespace Environment

variable (env : Environment)

theorem call_onCourse (m : HostMethod) (target : Option Value) (args : List Operand) :
    (env.call m target args).OnCourse := by
  intro w u defect control failed
  cases accepted : m.checkArguments args with
  | error fault =>
      rw [env.call_rejected m target args fault accepted] at failed
      cases failed
      rw [HostMethod.checkArguments] at accepted
      split at accepted
      · cases accepted
        cases control
      · split at accepted
        · cases accepted
          cases control
        · cases accepted
  | ok _ =>
      rw [env.call_accepted m target args accepted] at failed
      obtain ⟨verdict, rfl⟩ := Prod.mk.inj failed
      exact ⟨.host m target args (m.body ⟨target, args⟩ w.heap).1,
        m.verdict_internal _ _ defect verdict, rfl⟩

/-- A call whose target is found without a defect. -/
theorem resolved_onCourse (target : Option Value) (args : List Operand)
    (resolved : Except Fault HostMethod) (sound : NoDefect resolved) :
    Exec.OnCourse (do
      let m ← (liftM resolved : Exec HostMethod)
      env.call m target args) := by
  intro w u defect control failed
  rw [Exec.bind_apply, Exec.lift_apply] at failed
  cases resolved with
  | error fault =>
      cases failed
      exact absurd rfl (sound defect)
  | ok m => exact env.call_onCourse m target args w u defect control failed

end Environment

namespace Program

variable (p : Program)

/-- A call that has a receiver if its kind asks for one. -/
theorem callOutside_onCourse (site : CallSite) (receiver : Option Value) (args : List Operand)
    (bound : site.kind ≠ .special) (with_receiver : receiver.isSome = site.kind.hasReceiver) :
    (p.callOutside site receiver args).OnCourse := by
  unfold callOutside
  cases kind : site.kind with
  | special => exact absurd kind bound
  | static => exact p.env.resolved_onCourse _ _ _ (NoDefect.resolveStatic p.env _ _ _)
  | virtual =>
      rw [kind] at with_receiver
      obtain ⟨v, rfl⟩ := Option.isSome_iff_exists.mp with_receiver
      exact p.env.resolved_onCourse _ _ _ (NoDefect.resolveVirtual p.env _ _ _ v)
  | interface =>
      rw [kind] at with_receiver
      obtain ⟨v, rfl⟩ := Option.isSome_iff_exists.mp with_receiver
      exact p.env.resolved_onCourse _ _ _ (NoDefect.resolveInterface p.env _ _ _ v)

/-- An action on the contract that only changes the form of its result. -/
theorem mapped_onCourse {α : Type} {x : Exec α} (raises : ∀ w u fault, x w = (.error fault, u) →
    w.EndsIn u fault) (g : α → Option Operand) (w u : World) (fault : Fault)
    (failed : ((x w).1.map g, (x w).2) = (.error fault, u)) : w.EndsIn u fault := by
  cases ran : x w with
  | mk result v =>
      rw [ran] at failed
      cases result with
      | ok a => cases failed
      | error raised =>
          cases failed
          exact raises w v fault ran

theorem callFallback_onCourse (args : List Operand) : (p.callFallback args).OnCourse := by
  intro w u defect control failed
  obtain ⟨other, mem, refused⟩ | ⟨token, receiver, arguments, ran⟩ := p.callFallback_cases args w
  · rw [refused] at failed
    cases failed
    simp only [List.mem_cons, List.not_mem_nil, or_false] at mem
    obtain rfl | rfl | rfl := mem <;> cases control
  · rw [ran] at failed
    exact mapped_onCourse (p.contract.runFallback_error token receiver arguments) _ w u _ failed

theorem runInit_onCourse :
    (p.contract.runInit *> pure none : Exec (Option Operand)).OnCourse := by
  intro w u defect _ failed
  rw [p.runInit_eq] at failed
  exact mapped_onCourse p.contract.runInit_error _ w u _ failed

end Program

namespace Config

variable (callers : List Caller) (defect : Defect) (control : defect.isControl = true)
include control

theorem resume_onCourse (x : Except Fault Frame) (sound : OnCourse x) :
    resume x callers ≠ .failed (.internal defect) := by
  intro failed
  cases x with
  | ok f => cases failed
  | error fault =>
      cases failed
      exact sound defect control rfl

theorem giveBack_onCourse (result : Option Operand) :
    giveBack callers result ≠ .failed (.internal defect) := by
  cases callers with
  | nil => exact nofun
  | cons caller callers =>
      exact resume_onCourse callers defect control _
        (OnCourse.receive caller.frame caller.site result)

end Config

namespace Program

variable {p : Program} {w v : World} {defect : Defect} (control : defect.isControl = true)
include control

theorem answer_onCourse (action : Exec (Option Operand)) (sound : action.OnCourse) (f : Frame)
    (site : CallSite) (callers : List Caller)
    (failed : answer action f site callers w = (.failed (.internal defect), v)) :
    w.EndsIn v (.internal defect) := by
  rw [answer] at failed
  cases ran : action w with
  | mk result u =>
      rw [ran] at failed
      cases result with
      | error fault =>
          cases failed
          exact sound w v defect control ran
      | ok result =>
          have resumed := (Prod.mk.inj failed).1
          exact absurd resumed
            (Config.resume_onCourse _ _ control _ (OnCourse.receive f site result))

omit control in
theorem popReceiver_isSome (f g : Frame) (site : CallSite) (receiver : Option Value)
    (h : f.popReceiver site = .ok (receiver, g)) : receiver.isSome = site.kind.hasReceiver := by
  rw [Frame.popReceiver] at h
  split at h
  · rename_i with_receiver
    obtain ⟨⟨v, k⟩, -, rest⟩ := (except_bind_ok_iff _ _ _).mp h
    cases rest
    exact with_receiver.symm
  · rename_i alone
    cases h
    exact (Bool.not_eq_true _ ▸ alone).symm

theorem enter_failed (site : CallSite) (receiver : Option Value) (args : List Operand) (f : Frame)
    (callers : List Caller) (with_receiver : receiver.isSome = site.kind.hasReceiver)
    (failed : p.enter site receiver args f callers w = (.failed (.internal defect), v)) :
    w.EndsIn v (.internal defect) ∨ site.kind = .special ∧ p.unit.link? site = none ∧
      defect = .unlinked site.kind site.owner site.name := by
  rw [enter] at failed
  split at failed
  · rename_i r linked
    split at failed
    · cases failed
    · rw [(p.unit.find?_of_link? site r linked).1] at with_receiver
      cases with_receiver
  · exact .inl (answer_onCourse control _ p.runInit_onCourse f site callers failed)
  · exact .inl (answer_onCourse control _ (p.callFallback_onCourse args) f site callers failed)
  · rename_i unlinked
    by_cases special : site.kind = .special
    · unfold answer callOutside at failed
      simp only [special] at failed
      cases failed
      exact .inr ⟨special, unlinked, by rw [special]⟩
    · have sound := p.callOutside_onCourse site receiver args special with_receiver
      exact .inl (answer_onCourse control _ sound f site callers failed)

/-- A step that fails for want of somewhere to go stands behind the last instruction, or at a
special call that is linked to nothing, unless the fault comes from outside. -/
theorem step_failed (c : Config)
    (failed : p.step c w = (.failed (.internal defect), v)) :
    w.EndsIn v (.internal defect) ∨
      c.frame.routine.code[c.frame.position]? = none ∨
      ∃ site, c.frame.routine.code[c.frame.position]? = some (.call site) ∧
        site.kind = .special ∧ p.unit.link? site = none ∧
        defect = .unlinked site.kind site.owner site.name := by
  obtain ⟨f, callers⟩ := c
  cases here : f.routine.code[f.position]? with
  | none => exact .inr (.inl rfl)
  | some i =>
      by_cases within : i.isLocal = true
      · rw [step_local i within f callers here] at failed
        have resumed := (Prod.mk.inj failed).1
        exact absurd resumed
          (Config.resume_onCourse _ _ control _ (OnCourse.exec f.next p.env.hierarchy i))
      · cases i with
        | call site =>
            rw [step_call site f callers here, call] at failed
            split at failed
            · rename_i popped
              cases failed
              exact absurd popped (OnCourse.popArguments f.next site defect control)
            · rename_i args g _
              split at failed
              · rename_i popped
                cases failed
                exact absurd popped (OnCourse.popReceiver g site defect control)
              · rename_i receiver k taken
                have with_receiver := popReceiver_isSome g k site receiver taken
                obtain raised | special :=
                  enter_failed control site receiver args k callers with_receiver failed
                · exact .inl raised
                · exact .inr (.inr ⟨site, rfl, special⟩)
        | ret =>
            rw [step_ret f callers here] at failed
            split at failed
            · exact absurd (Prod.mk.inj failed).1 (Config.giveBack_onCourse callers _ control _)
            · rename_i popped
              cases failed
              exact absurd popped (OnCourse.popReference f.next defect control)
        | retVoid =>
            rw [step_retVoid f callers here] at failed
            exact absurd (Prod.mk.inj failed).1 (Config.giveBack_onCourse callers _ control _)
        | _ => exact absurd rfl within

end Program

end TokenDispatch
