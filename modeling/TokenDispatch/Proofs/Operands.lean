import TokenDispatch.Proofs.ArgumentChecks
import TokenDispatch.Proofs.MethodRun

/-!
What coercion leaves. An operand that was coerced fits the type it was coerced to, so a method that
declares these types accepts it; and whatever value is coerced, a fault of the coercion is about the
value, never about the code.
-/

namespace TokenDispatch

/-- A primitive of the very kind, or a reference that is an instance of the type. -/
def Hierarchy.Fits (h : Hierarchy) : Ty → Operand → Prop
  | .prim kind, .prim x => x.kind = kind
  | .named name, .ref v => h.isInstance (.named name) v = true
  | .array element, .ref v => h.isInstance (.array element) v = true
  | _, _ => False

namespace Hierarchy

variable (h : Hierarchy)

theorem isInstance_of_checkCast (v : Value) (target : Ty) (ok : h.checkCast v target = .ok ()) :
    h.isInstance target v = true :=
  ((h.checkCast_eq_ok_iff v target).mp ok).2

theorem coerce_fits (v : Value) (ty : Ty) (operand : Operand) (ok : h.coerce v ty = .ok operand) :
    h.Fits ty operand := by
  cases ty with
  | void =>
      cases cast : h.checkCast v .void with
      | error fault =>
          change (h.checkCast v .void *> pure (.ref v)) = _ at ok
          rw [cast] at ok
          cases ok
      | ok _ => exact absurd (h.isInstance_of_checkCast v .void cast) (by simp [isInstance])
  | prim kind =>
      change Operand.prim <$> v.unbox kind = _ at ok
      cases unboxed : v.unbox kind with
      | error fault =>
          rw [unboxed] at ok
          cases ok
      | ok x =>
          rw [unboxed] at ok
          cases ok
          exact v.unbox_kind kind x unboxed
  | named _ | array _ =>
      rw [h.coerce_of_reference v _ rfl] at ok
      cases cast : h.checkCast v _ with
      | error fault =>
          rw [cast] at ok
          cases ok
      | ok _ =>
          rw [cast] at ok
          cases ok
          exact h.isInstance_of_checkCast v _ cast

end Hierarchy

/-- Operands that fit a list of types, one for each. -/
structure Hierarchy.FitAll (h : Hierarchy) (params : List Ty) (args : List Operand) : Prop where
  count : args.length = params.length
  fits : ∀ (k : Nat) (param : Ty) (arg : Operand), params[k]? = some param → args[k]? = some arg →
    h.Fits param arg

namespace Hierarchy

variable {h : Hierarchy}

theorem FitAll.cons {param : Ty} {arg : Operand} {params : List Ty} {args : List Operand}
    (head : h.Fits param arg) (tail : h.FitAll params args) :
    h.FitAll (param :: params) (arg :: args) := by
  refine ⟨congrArg (· + 1) tail.count, fun k p a found_param found_arg => ?_⟩
  cases k with
  | zero =>
      cases found_param
      cases found_arg
      exact head
  | succ k => exact tail.fits k p a found_param found_arg

theorem coerceElements_fitAll (arguments : Value) (params : List Ty) (position : Nat)
    (args : List Operand) (ok : h.coerceElements arguments params position = .ok args) :
    h.FitAll params args := by
  induction params generalizing position args with
  | nil =>
      cases ok
      exact ⟨rfl, nofun⟩
  | cons param params ih =>
      obtain ⟨item, -, ok⟩ := (except_bind_ok_iff _ _ _).mp ok
      obtain ⟨operand, coerced, ok⟩ := (except_bind_ok_iff _ _ _).mp ok
      obtain ⟨others, rest, ok⟩ := (except_bind_ok_iff _ _ _).mp ok
      cases ok
      exact .cons (h.coerce_fits item param operand coerced) (ih (position + 1) others rest)

end Hierarchy

theorem Hierarchy.Fits.accepts {h : Hierarchy} {param : Ty} {arg : Operand}
    (fits : h.Fits param arg) : HostMethod.accepts param arg = true := by
  cases param with
  | void => cases arg <;> cases fits
  | prim kind =>
      cases arg with
      | prim x => exact beq_iff_eq.mpr fits
      | ref v => cases fits
  | named _ | array _ =>
      cases arg with
      | prim x => cases fits
      | ref v => rfl

/-- A method takes operands that fit its parameters. -/
theorem HostMethod.checkArguments_of_fitAll (m : HostMethod) (h : Hierarchy) (args : List Operand)
    (fit : h.FitAll m.sig.params args) : m.checkArguments args = .ok () := by
  refine (m.checkArguments_eq_ok_iff args).mpr ⟨fit.count, ?_⟩
  intro position arg param at_arg at_param
  exact (fit.fits position param arg at_param at_arg).accepts

/-! Faults that are no defects of the code. -/

/-- A result that is no internal fault. -/
def NoDefect {α : Type} (x : Except Fault α) : Prop := ∀ defect, x ≠ .error (.internal defect)

namespace NoDefect

variable {α β : Type}

theorem ok (a : α) : NoDefect (.ok a : Except Fault α) := nofun

theorem bind {x : Except Fault α} {f : α → Except Fault β} (hx : NoDefect x)
    (hf : ∀ a, NoDefect (f a)) : NoDefect (x >>= f) := by
  cases x with
  | error fault => exact fun defect same => hx defect (by cases same; rfl)
  | ok a => exact hf a

theorem map {x : Except Fault α} (hx : NoDefect x) (g : α → β) : NoDefect (x.map g) := by
  cases x with
  | error fault => exact fun defect same => hx defect (by cases same; rfl)
  | ok a => exact nofun

theorem unbox (v : Value) (target : Prim) : NoDefect (v.unbox target) := by
  intro defect same
  unfold Value.unbox at same
  split at same
  · cases same
  · split at same
    · cases same
    · cases same

theorem checkCast (h : Hierarchy) (v : Value) (target : Ty)
    (reference : target.isReference = true) : NoDefect (h.checkCast v target) := by
  intro defect same
  rw [Hierarchy.checkCast, reference] at same
  split at same
  · contradiction
  · split at same
    · cases same
    · cases same

theorem coerce (h : Hierarchy) (v : Value) (ty : Ty) (value : ty ≠ .void) :
    NoDefect (h.coerce v ty) := by
  cases ty with
  | void => exact absurd rfl value
  | prim kind => exact (unbox v kind).map Operand.prim
  | named _ | array _ =>
      rw [h.coerce_of_reference v _ rfl]
      exact (checkCast h v _ rfl).map _

theorem element (arguments : Value) (index : Int32) : NoDefect (arguments.element index) := by
  intro defect same
  unfold Value.element at same
  split at same
  · cases same
  · split at same
    · cases same
    · cases same
  · cases same

theorem coerceElements (h : Hierarchy) (arguments : Value) (params : List Ty) (position : Nat)
    (values : ∀ param ∈ params, param ≠ .void) :
    NoDefect (h.coerceElements arguments params position) := by
  induction params generalizing position with
  | nil => exact ok []
  | cons param params ih =>
      obtain ⟨value, values⟩ := List.forall_mem_cons.mp values
      apply bind (element arguments _)
      intro item
      apply bind (coerce h item param value)
      intro operand
      apply bind (ih (position + 1) values)
      exact fun others => ok _

/-- A method that can be called meets only values that are wrong. -/
theorem operands (m : Method) (callable : m.Callable) (h : Hierarchy)
    (receiver arguments : Value) : NoDefect (m.operands h receiver arguments) := by
  apply bind
  · rw [Method.coerceReceiver]
    split
    · exact ok none
    · apply bind (checkCast h receiver m.target (by rw [callable.owner]; rfl))
      exact fun _ => ok _
  · intro target
    apply bind (coerceElements h arguments m.params 0 callable.params)
    exact fun args => ok _

end NoDefect

namespace NoDefect

variable (env : Environment) (m : Method)

theorem resolveStatic (owner name descriptor : String) :
    NoDefect (env.resolveStatic owner name descriptor) := by
  intro defect same
  rw [Environment.resolveStatic] at same
  split at same
  · cases same
  · split at same
    · cases same
    · cases same

theorem receiverClass (owner name : String) (receiver : Value) :
    NoDefect (Environment.receiverClass owner name receiver) := by
  intro defect same
  rw [Environment.receiverClass] at same
  split at same
  · cases same
  · cases same

theorem resolveVirtual (owner name descriptor : String) (receiver : Value) :
    NoDefect (env.resolveVirtual owner name descriptor receiver) := by
  apply bind (receiverClass owner name receiver)
  intro className defect same
  split at same
  · cases same
  · cases same

theorem resolveInterface (owner name descriptor : String) (receiver : Value) :
    NoDefect (env.resolveInterface owner name descriptor receiver) := by
  apply bind (receiverClass owner name receiver)
  intro className defect same
  cases implements : env.hierarchy.isSubtype className owner with
  | false =>
      rw [implements] at same
      cases same
  | true =>
      rw [implements] at same
      cases found : env.findInInterfaces? owner name descriptor with
      | none =>
          rw [found] at same
          cases same
      | some declared =>
          rw [found] at same
          cases same

theorem resolve (target : Option Value) : NoDefect (env.resolve m target) := by
  cases target with
  | none => exact resolveStatic env _ _ _
  | some receiver =>
      unfold Environment.resolve
      dsimp only
      split
      · exact resolveInterface env _ _ _ receiver
      · exact resolveVirtual env _ _ _ receiver

end NoDefect

end TokenDispatch
