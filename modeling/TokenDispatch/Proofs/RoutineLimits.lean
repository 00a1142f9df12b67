import TokenDispatch.Proofs.WellFormed

/-!
How many parameters a routine may have. The locals of a routine are fixed when it begins: one for
the object and one for each parameter, unless that is more than a frame has. A signature is accepted
up to one parameter more than that leaves room for, and the last parameter then has no local.
-/

namespace TokenDispatch

open Assembler

/-- The same routine later on: how it began and how many locals it has do not change. -/
structure OpenRoutine.Continues (r r' : OpenRoutine) : Prop where
  access_eq : r'.access = r.access
  name_eq : r'.name = r.name
  sig_eq : r'.sig = r.sig
  maxLocals_eq : r'.maxLocals = r.maxLocals

namespace OpenRoutine.Continues

variable {r r' r'' : OpenRoutine}

theorem refl (r : OpenRoutine) : r.Continues r := ⟨rfl, rfl, rfl, rfl⟩

theorem trans (first : r.Continues r') (second : r'.Continues r'') : r.Continues r'' where
  access_eq := second.access_eq.trans first.access_eq
  name_eq := second.name_eq.trans first.name_eq
  sig_eq := second.sig_eq.trans first.sig_eq
  maxLocals_eq := second.maxLocals_eq.trans first.maxLocals_eq

theorem of_retains (retains : r.Retains r') : r.Continues r' := by
  obtain ⟨depth, entryDepth, rfl⟩ := retains
  exact ⟨rfl, rfl, rfl, rfl⟩

theorem of_extends {d : Directive Label} (extends_ : Extends r d r') : r.Continues r' := by
  cases extends_ with
  | instruct _ _ | placeLabel _ | lookupSwitch _ _ _ _ | tableSwitch _ _ _ _ =>
      exact ⟨rfl, rfl, rfl, rfl⟩

end OpenRoutine.Continues

namespace Assembler

variable {a a' : Assembler} {r : OpenRoutine} {c : Call}

theorem Takes.continues (takes : a.Takes c a') (current : a.current = some r)
    (other : c.endsRoutine = false) : ∃ r', a'.current = some r' ∧ r.Continues r' := by
  cases takes with
  | newLabel open_ =>
      cases current.symm.trans open_
      exact ⟨_, rfl, rfl, rfl, rfl, rfl⟩
  | nowhere closed | beginRoutine _ closed _ => cases current.symm.trans closed
  | beginUnit _ => exact ⟨r, current, .refl r⟩
  | inner _ open_ extends_ =>
      cases current.symm.trans open_
      exact ⟨_, rfl, .of_extends extends_⟩
  | endRoutine => cases other

theorem Leaves.continues (leaves : a.Leaves c a') (current : a.current = some r)
    (other : c.endsRoutine = false) : ∃ r', a'.current = some r' ∧ r.Continues r' := by
  cases leaves with
  | unchanged _ => exact ⟨r, current, .refl r⟩
  | retained _ open_ retains =>
      cases current.symm.trans open_
      exact ⟨_, rfl, .of_retains retains⟩
  | dropped => cases other

/-- An open routine stays open until a call ends it. -/
theorem act_continues (current : a.current = some r) (other : c.endsRoutine = false) :
    ∃ r', (c.act a : Except EmitError Unit × Assembler).2.current = some r' ∧ r.Continues r' := by
  obtain ⟨-, takes⟩ | ⟨-, leaves⟩ := a.act_cases c
  · exact takes.continues current other
  · exact leaves.continues current other

theorem drive_continues (current : a.current = some r) {calls : List Call}
    (others : ∀ c ∈ calls, c.endsRoutine = false) :
    ∃ r', (a.drive calls).current = some r' ∧ r.Continues r' := by
  induction calls generalizing a r with
  | nil => exact ⟨r, current, .refl r⟩
  | cons c calls ih =>
      obtain ⟨other, others⟩ := List.forall_mem_cons.mp others
      obtain ⟨s, open_, first⟩ := act_continues current other
      obtain ⟨r', last, rest⟩ := ih open_ others
      exact ⟨r', last, first.trans rest⟩

/-- A local can be loaded here. -/
def Loads (a : Assembler) (slot : Nat) : Prop :=
  ∃ a', Succeeds (perform (.loadLocal slot)) a () a'

theorem loads_iff (current : a.current = some r) (reachable : r.reachable = true)
    (shallow : r.depth = 0) (slot : Nat) : a.Loads slot ↔ slot < r.maxLocals := by
  have room : r.depth - 0 + 1 ≤ frameLimit := by
    rw [shallow]
    decide
  constructor
  · rintro ⟨a', loads⟩
    obtain ⟨s, open_, accepts, -⟩ := (perform_instr_iff _ (.loadLocal slot) rfl a a' ()).mp loads
    cases current.symm.trans open_
    exact accepts.permitted
  · intro lt
    exact ⟨_, (perform_instr_iff _ (.loadLocal slot) rfl a _ ()).mpr
      ⟨r, current, ⟨lt, reachable, Nat.zero_le _, room⟩, rfl⟩⟩

theorem loadLocal_fails (current : a.current = some r) {slot : Nat} (high : r.maxLocals ≤ slot) :
    Fails (perform (.loadLocal slot)) a (.localSlot r.maxLocals slot) a := by
  obtain ⟨header, routines, _⟩ := a
  cases current
  have raised : Fails (Edit.loadLocal slot) r (.localSlot r.maxLocals slot) r := by
    change Fails (if slot < r.maxLocals then _ else _) r _ r
    rw [if_neg (Nat.not_lt.mpr high)]
    exact (Fails.throw_iff _ _ r r).mpr ⟨rfl, rfl⟩
  change @Eq (Except EmitError Unit × Assembler) ((Edit.loadLocal slot r).1,
    ⟨header, routines, some (Edit.loadLocal slot r).2⟩) _
  rw [raised]

theorem beginRoutine_fails {access : Access} {name : String} {sig : Signature}
    (begun : a.header ≠ none) (closed : a.current = none) (many : frameLimit < sig.params.length) :
    Fails (perform (.beginRoutine access name sig)) a (.parameterCount sig.params.length) a := by
  obtain ⟨_ | started, routines, _⟩ := a
  · exact absurd rfl begun
  · cases closed
    simp only [Fails, perform, beginRoutine, if_pos many]

/-- A signature is accepted if it has no more parameters than a frame has locals. The routine then
has a local for each and one for the object, except that for the greatest signatures the last
parameter has none; and the slots that can be loaded are those of its locals. -/
theorem beginRoutine_limit (a : Assembler) (access : Access) (name : String) (sig : Signature)
    (begun : a.header ≠ none) (closed : a.current = none) :
    ((∃ a', Succeeds (perform (.beginRoutine access name sig)) a () a') ↔
      sig.params.length ≤ 65535) ∧
    (65535 < sig.params.length → Fails (perform (.beginRoutine access name sig)) a
      (.parameterCount sig.params.length) a) ∧
    ∀ (a' : Assembler) (calls : List Call),
      Succeeds (perform (.beginRoutine access name sig)) a () a' →
      (∀ c ∈ calls, c.endsRoutine = false) →
      ∃ r, (a'.drive calls).current = some r ∧
        (OpenRoutine.start access name sig).Continues r ∧
        r.maxLocals = min 65535 (sig.params.length + 1) ∧
        (r.maxLocals = sig.params.length + 1 ↔ sig.params.length ≤ 65534) ∧
        (r.reachable = true → r.depth = 0 →
          (∀ slot, (a'.drive calls).Loads slot ↔ slot < r.maxLocals) ∧
          ((∀ slot ≤ sig.params.length, (a'.drive calls).Loads slot) ↔
            sig.params.length ≤ 65534)) ∧
        (∀ slot, r.maxLocals ≤ slot → Fails (perform (.loadLocal slot)) (a'.drive calls)
          (.localSlot r.maxLocals slot) (a'.drive calls)) ∧
        ∀ b, Succeeds (perform .endRoutine) (a'.drive calls) () b →
          b.routines = (a'.drive calls).routines.push r.finished := by
  have begin_iff := beginRoutine_iff access name sig a
  refine ⟨⟨?_, fun few => ?_⟩, beginRoutine_fails begun closed, fun a' calls begins others => ?_⟩
  · rintro ⟨a', begins⟩
    exact ((begin_iff a' ()).mp begins).1.2.2
  · exact ⟨_, (begin_iff _ ()).mpr ⟨⟨begun, closed, few⟩, rfl⟩⟩
  obtain ⟨-, rfl⟩ := (begin_iff a' ()).mp begins
  have started : Assembler.current { a with current := some (.start access name sig) } =
      some (.start access name sig) := rfl
  obtain ⟨r, current, continues⟩ := drive_continues started others
  have locals : r.maxLocals = min 65535 (sig.params.length + 1) := continues.maxLocals_eq
  refine ⟨r, current, continues, locals, by omega, fun reachable shallow => ?_,
    fun slot => loadLocal_fails current, fun b ends => ?_⟩
  · have loads_iff := loads_iff current reachable shallow
    refine ⟨loads_iff, fun all => ?_, fun few slot le => (loads_iff slot).mpr (by omega)⟩
    have last := (loads_iff _).mp (all sig.params.length (Nat.le_refl _))
    omega
  · obtain ⟨s, open_, -, -, -, rfl⟩ := (endRoutine_iff _ b ()).mp ends
    cases current.symm.trans open_
    rfl

/-- As many parameters as are accepted. -/
def greatest : Signature := ⟨List.replicate 65535 (.prim .int), .void⟩

theorem greatest_length : greatest.params.length = 65535 := List.length_replicate

def begunUnit : Assembler := { header := some ("Hand", Contract.defaultName) }

/-- The message of the error speaks of one parameter less than is accepted. -/
theorem beginRoutine_limit_of_greatest :
    (EmitError.parameterCount 65536).message =
        "parameter count: expected at most 65534, found 65536" ∧
      ∃ a', Succeeds (perform (.beginRoutine .exported RoutineName.entry greatest)) begunUnit () a' ∧
        a'.Loads 65534 ∧ ¬ a'.Loads greatest.params.length := by
  obtain ⟨accepts, -, locals⟩ :=
    beginRoutine_limit begunUnit .exported RoutineName.entry greatest (by decide) rfl
  obtain ⟨a', begins⟩ := accepts.mpr (Nat.le_of_eq greatest_length)
  obtain ⟨r, current, -, eq_min, -, loads, -⟩ := locals a' [] begins nofun
  obtain ⟨-, rfl⟩ := (beginRoutine_iff _ _ _ begunUnit a' ()).mp begins
  cases current
  obtain ⟨loads_iff, -⟩ := loads rfl rfl
  rw [greatest_length] at eq_min ⊢
  refine ⟨by decide +kernel, _, begins, (loads_iff _).mpr ?_, fun last => ?_⟩
  · omega
  · have := (loads_iff _).mp last
    omega

end Assembler

end TokenDispatch
