import Mathlib.Order.WellFounded
import TokenDispatch.Proofs.Requests

/-!
What keeps a request from running a body. Each obstacle has a fault of its own, the one met first is
reported, and then nothing has happened; where there is none, one body runs.
-/

namespace TokenDispatch

inductive Obstacle where
  | nullReceiver
  | notImplemented
  | unresolved
  | notStatic
  | misfit

/-- The obstacles are looked for in this order. -/
def Obstacle.rank : Obstacle → Nat
  | nullReceiver => 0
  | notImplemented => 1
  | unresolved => 2
  | notStatic => 3
  | misfit => 4

namespace Environment

variable (env : Environment) (r : Request) (args : List Operand)

/-- An obstacle to a request on some operands, with the fault that reports it. Only operands are
judged by the method that would run; the others can be met together. -/
inductive Hinders : Obstacle → Fault → Prop
  | nullReceiver (null : r.receiver? = some .null) :
      Hinders .nullReceiver (.nullReceiver r.owner r.name)
  | notImplemented {receiver : Value} {className : String}
      (receiver_eq : r.receiver? = some receiver) (class_eq : receiver.class? = some className)
      (refused : ¬ env.Admits r className) :
      Hinders .notImplemented (.notImplemented className r.owner)
  | unresolved (missing : env.Unresolved r) :
      Hinders .unresolved (.noSuchMethodError r.owner r.name r.sig.descriptor)
  | notStatic {m : HostMethod} (manner : r.manner = .static) (resolves : env.Resolves r m)
      (plain : m.isStatic = false) :
      Hinders .notStatic (.notStatic r.owner r.name r.sig.descriptor)
  | misfit {m : HostMethod} {fault : Fault} (selects : env.Selects r m)
      (misfits : m.Misfits args fault) : Hinders .misfit fault

/-- An obstacle with no other in the way before it. -/
def HindersFirst (obstacle : Obstacle) (fault : Fault) : Prop :=
  env.Hinders r args obstacle fault ∧
    ∀ other reported, env.Hinders r args other reported → obstacle.rank ≤ other.rank

variable {env r args}

theorem exists_hindersFirst {obstacle : Obstacle} {fault : Fault}
    (hinders : env.Hinders r args obstacle fault) :
    ∃ first reported, env.HindersFirst r args first reported := by
  obtain ⟨first, ⟨reported, hinders_first⟩, least⟩ := (measure Obstacle.rank).wf.has_min
    {o | ∃ reported, env.Hinders r args o reported} ⟨obstacle, fault, hinders⟩
  exact ⟨first, reported, hinders_first, fun other reported hinders =>
    Nat.le_of_not_lt (least other ⟨reported, hinders⟩)⟩

/-! Either something runs or there is an obstacle. -/

theorem selects_or_hinders (grounded : env.hierarchy.Grounded) (args : List Operand) :
    (∃ m, env.Selects r m) ∨ ∃ obstacle fault, env.Hinders r args obstacle fault := by
  cases found : env.found? r with
  | none => exact .inr ⟨_, _, .unresolved ((found?_eq_none_iff grounded).mp found)⟩
  | some declared =>
      have resolves := (found?_eq_some_iff grounded declared).mp found
      cases receiver_eq : r.receiver? with
      | none =>
          have manner := Request.receiver?_eq_none_iff.mp receiver_eq
          cases static : declared.isStatic with
          | true => exact .inl ⟨declared, .static manner resolves static⟩
          | false => exact .inr ⟨_, _, .notStatic manner resolves static⟩
      | some receiver =>
          cases class_eq : receiver.class? with
          | none =>
              cases Value.class?_eq_none_iff.mp class_eq
              exact .inr ⟨_, _, .nullReceiver receiver_eq⟩
          | some className =>
              by_cases admits : env.Admits r className
              · cases own : (env.hierarchy.chain className).findSome? (env.instance? r) with
                | none =>
                    have missing := grounded.findSome?_chain_eq_none_iff.mp own
                    exact .inl ⟨declared, .declared receiver_eq class_eq admits resolves missing⟩
                | some m =>
                    have inherits := (grounded.findSome?_chain_eq_some_iff m).mp own
                    exact .inl ⟨m, .override receiver_eq class_eq admits resolves inherits⟩
              · exact .inr ⟨_, _, .notImplemented receiver_eq class_eq admits⟩

theorem runs_or_hinders (grounded : env.hierarchy.Grounded) (args : List Operand) :
    (∃ m, env.Selects r m ∧ m.Accepts args) ∨
      ∃ obstacle fault, env.Hinders r args obstacle fault := by
  obtain ⟨m, selects⟩ | hinders := selects_or_hinders (r := r) grounded args
  · obtain accepts | ⟨fault, misfits⟩ := m.accepts_or_misfits args
    · exact .inl ⟨m, selects, accepts⟩
    · exact .inr ⟨_, fault, .misfit selects misfits⟩
  · exact .inr hinders

/-! What is reported. -/

theorem target_of_unresolved (grounded : env.hierarchy.Grounded) (missing : env.Unresolved r)
    (not_null : r.receiver? ≠ some .null)
    (admits : ∀ receiver className, r.receiver? = some receiver →
      receiver.class? = some className → env.Admits r className) :
    env.target r = .error (.noSuchMethodError r.owner r.name r.sig.descriptor) := by
  have not_found := (found?_eq_none_iff grounded).mpr missing
  cases receiver_eq : r.receiver? with
  | none => rw [target_of_static (Request.receiver?_eq_none_iff.mp receiver_eq), not_found]
  | some receiver =>
      cases class_eq : receiver.class? with
      | none =>
          rw [Value.class?_eq_none_iff.mp class_eq] at receiver_eq
          exact absurd receiver_eq not_null
      | some className =>
          rw [target_of_admits receiver_eq class_eq (admits _ _ receiver_eq class_eq), not_found]

theorem target_of_notStatic (grounded : env.hierarchy.Grounded) {m : HostMethod}
    (manner : r.manner = .static) (resolves : env.Resolves r m) (plain : m.isStatic = false) :
    env.target r = .error (.notStatic r.owner r.name r.sig.descriptor) := by
  rw [target_of_static manner, (found?_eq_some_iff grounded m).mpr resolves]
  exact if_neg (Bool.eq_false_iff.mp plain)

/-- The first obstacle is what is reported, and nothing has happened then. -/
theorem perform_of_hindersFirst (grounded : env.hierarchy.Grounded) {obstacle : Obstacle}
    {fault : Fault} (first : env.HindersFirst r args obstacle fault) (w : World) :
    env.perform r args w = (.error fault, w) := by
  obtain ⟨hinders, least⟩ := first
  cases hinders with
  | nullReceiver null => exact perform_of_error (target_of_null null) w
  | notImplemented receiver_eq class_eq refused =>
      exact perform_of_error (target_of_not_admits receiver_eq class_eq refused) w
  | unresolved missing =>
      have not_null (null : r.receiver? = some .null) : False :=
        absurd (least _ _ (.nullReceiver null)) (by decide)
      have admits (receiver className) (receiver_eq : r.receiver? = some receiver)
          (class_eq : receiver.class? = some className) : env.Admits r className := by
        by_contra refused
        exact absurd (least _ _ (.notImplemented receiver_eq class_eq refused)) (by decide)
      exact perform_of_error (target_of_unresolved grounded missing not_null admits) w
  | notStatic manner resolves plain =>
      exact perform_of_error (target_of_notStatic grounded manner resolves plain) w
  | misfit selects misfits =>
      exact perform_of_misfits (target_of_selects grounded selects) misfits w

/-- Each request runs the body of one method, once, or is refused and has no effect. It is refused
exactly if there is an obstacle, and reports the first one. -/
theorem perform_runs_unless_hindered (env : Environment) (r : Request) (args : List Operand)
    (grounded : env.hierarchy.Grounded) :
    ((∃ m, env.Selects r m ∧ m.Accepts args ∧
        env.Runs m r.receiver? args (env.perform r args)) ∨
      ∃ fault, ∀ w, env.perform r args w = (.error fault, w)) ∧
    (∀ w, (env.perform r args w).2.calls = w.calls ↔
      ∃ obstacle fault, env.Hinders r args obstacle fault) ∧
    (∀ obstacle fault, env.Hinders r args obstacle fault →
      ∃ first reported, env.HindersFirst r args first reported) ∧
    ∀ obstacle fault, env.HindersFirst r args obstacle fault →
      ∀ w, env.perform r args w = (.error fault, w) := by
  have refused {obstacle : Obstacle} {fault : Fault}
      (hinders : env.Hinders r args obstacle fault) :
      ∃ reported, ∀ w, env.perform r args w = (.error reported, w) := by
    obtain ⟨_, reported, first⟩ := exists_hindersFirst hinders
    exact ⟨reported, perform_of_hindersFirst grounded first⟩
  refine ⟨?_, fun w => ⟨fun none_ran => ?_, fun ⟨_, _, hinders⟩ => ?_⟩,
    fun _ _ => exists_hindersFirst, fun _ _ => perform_of_hindersFirst grounded⟩
  · obtain ⟨m, selects, accepts⟩ | ⟨_, _, hinders⟩ := runs_or_hinders (r := r) grounded args
    · exact .inl ⟨m, selects, accepts, perform_runs (target_of_selects grounded selects) accepts⟩
    · exact .inr (refused hinders)
  · obtain ⟨m, selects, accepts⟩ | hinders := runs_or_hinders (r := r) grounded args
    · have ran := perform_runs (target_of_selects grounded selects) accepts w
      rw [ran, HostMethod.ran] at none_ran
      have sizes := congrArg Array.size none_ran
      rw [Array.size_push] at sizes
      omega
    · exact hinders
  · obtain ⟨reported, refused⟩ := refused hinders
    rw [refused w]

/-- A text has no such method, and an interface that it is not of does not declare one. -/
def volumeOfText : Request :=
  { areaCall (.interface (.string "text")) "Flat" with name := "volume" }

theorem perform_runs_unless_hindered_of_shapes :
    shapes.Hinders volumeOfText [] .unresolved (.noSuchMethodError "Flat" "volume" "()I") ∧
      ∀ w, shapes.perform volumeOfText [] w =
        (.error (.notImplemented ClassName.string "Flat"), w) := by
  have unresolved : shapes.Unresolved volumeOfText := by
    intro via _ m offers
    have declares := (declares_of_find? offers.declared).1
    obtain ⟨owner, -, rfl⟩ := List.mem_map.mp declares.registered
    exact absurd declares.name_eq (by decide : "area" ≠ "volume")
  have apart : shapes.hierarchy.isSubtype ClassName.string "Flat" = false := by cbv
  have refused : ¬ shapes.Admits volumeOfText ClassName.string :=
    mt Hierarchy.isSubtype_iff.mpr (Bool.eq_false_iff.mp apart)
  have refusal := (perform_runs_unless_hindered shapes volumeOfText [] shapes_grounded).2.2.2
  refine ⟨.unresolved unresolved, refusal .notImplemented _ ⟨.notImplemented rfl rfl refused, ?_⟩⟩
  intro other reported hinders
  cases hinders with
  | nullReceiver null => cases null
  | notImplemented | unresolved | notStatic | misfit => decide

end Environment

end TokenDispatch
