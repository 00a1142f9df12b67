import TokenDispatch.Invocation

/-!
Which operands a host method takes, and what it says of others. Their number is looked at before
their kinds, and of several operands of a wrong kind the first is reported.
-/

namespace TokenDispatch

/-- The first entry of a list that passes a test, together with its position. -/
theorem find?_zipIdx_eq_some_iff {α : Type} (p : α → Bool) (l : List α) (a : α) (position : Nat) :
    l.zipIdx.find? (fun entry => p entry.1) = some (a, position) ↔
      l[position]? = some a ∧ p a = true ∧
        ∀ earlier < position, ∀ b, l[earlier]? = some b → p b = false := by
  rw [List.find?_eq_some_iff_getElem]
  constructor
  · rintro ⟨passes, i, lt, same, before⟩
    rw [List.length_zipIdx] at lt
    rw [List.getElem_zipIdx, Nat.zero_add] at same
    cases same
    refine ⟨List.getElem?_eq_getElem lt, passes, fun j lt_position b found => ?_⟩
    obtain ⟨lt_j, rfl⟩ := List.getElem?_eq_some_iff.mp found
    simpa using before j lt_position
  · rintro ⟨found, passes, before⟩
    obtain ⟨lt, rfl⟩ := List.getElem?_eq_some_iff.mp found
    refine ⟨passes, position, by simpa using lt, by simp, fun j lt_position => ?_⟩
    simpa using before j lt_position _ (List.getElem?_eq_getElem (Nat.lt_trans lt_position lt))

namespace HostMethod

variable (m : HostMethod) (args : List Operand)

/-- One operand for each parameter, each of the kind that the parameter takes. -/
structure Accepts : Prop where
  count : args.length = m.sig.params.length
  kinds : ∀ (position : Nat) (arg : Operand) (param : Ty), args[position]? = some arg →
    m.sig.params[position]? = some param → accepts param arg = true

/-- What is wrong with operands, as the fault that reports it. -/
inductive Misfits : Fault → Prop
  | count (other : args.length ≠ m.sig.params.length) :
      Misfits (.internal (.argumentCount m.owner m.name m.sig.params.length args.length))
  | kind {position : Nat} {arg : Operand} {param : Ty}
      (count : args.length = m.sig.params.length) (at_arg : args[position]? = some arg)
      (at_param : m.sig.params[position]? = some param) (refused : accepts param arg = false)
      (earlier : ∀ before < position, ∀ a p, args[before]? = some a →
        m.sig.params[before]? = some p → accepts p a = true) :
      Misfits (.internal (.argumentKind position m.owner m.name param arg.kindName))

/-- The first operand that its parameter does not take. -/
def firstRefused? : Option ((Operand × Ty) × Nat) :=
  (args.zip m.sig.params).zipIdx.find? fun entry => !accepts entry.1.2 entry.1.1

theorem firstRefused?_eq_some_iff (arg : Operand) (param : Ty) (position : Nat) :
    m.firstRefused? args = some ((arg, param), position) ↔
      args[position]? = some arg ∧ m.sig.params[position]? = some param ∧
        accepts param arg = false ∧
        ∀ before < position, ∀ a p, args[before]? = some a →
          m.sig.params[before]? = some p → accepts p a = true := by
  rw [firstRefused?, find?_zipIdx_eq_some_iff fun entry : Operand × Ty => !accepts entry.2 entry.1]
  simp only [List.getElem?_zip_eq_some, Bool.not_eq_true', Bool.not_eq_false', Prod.forall, and_imp,
    and_assoc]

theorem firstRefused?_eq_none_iff : m.firstRefused? args = none ↔
    ∀ (position : Nat) (arg : Operand) (param : Ty), args[position]? = some arg →
      m.sig.params[position]? = some param → accepts param arg = true := by
  simp only [firstRefused?, List.find?_eq_none, Prod.forall, List.mk_mem_zipIdx_iff_getElem?,
    List.getElem?_zip_eq_some, and_imp, Bool.not_eq_true', Bool.not_eq_false]
  exact ⟨fun all position arg param => all arg param position,
    fun all arg param position => all position arg param⟩

theorem checkArguments_of_count (count : args.length = m.sig.params.length) :
    m.checkArguments args =
      match m.firstRefused? args with
      | some ((arg, param), position) =>
          .error (.internal (.argumentKind position m.owner m.name param arg.kindName))
      | none => .ok () := by
  rw [checkArguments, if_neg (not_not_intro count)]
  rfl

theorem checkArguments_eq_ok_iff : m.checkArguments args = .ok () ↔ m.Accepts args := by
  by_cases count : args.length = m.sig.params.length
  · rw [m.checkArguments_of_count args count]
    constructor
    · intro ok
      split at ok
      · cases ok
      · rename_i none_refused
        exact ⟨count, (m.firstRefused?_eq_none_iff args).mp none_refused⟩
    · intro accepts
      rw [(m.firstRefused?_eq_none_iff args).mpr accepts.kinds]
  · rw [checkArguments, if_pos count]
    exact ⟨nofun, fun accepts => absurd accepts.count count⟩

theorem checkArguments_eq_error_iff (fault : Fault) :
    m.checkArguments args = .error fault ↔ m.Misfits args fault := by
  by_cases count : args.length = m.sig.params.length
  · rw [m.checkArguments_of_count args count]
    constructor
    · intro error
      split at error
      · rename_i arg param position found
        cases error
        obtain ⟨at_arg, at_param, refused, earlier⟩ :=
          (m.firstRefused?_eq_some_iff args arg param position).mp found
        exact .kind count at_arg at_param refused earlier
      · cases error
    · intro misfits
      cases misfits with
      | count other => exact absurd count other
      | kind _ at_arg at_param refused earlier =>
          rw [(m.firstRefused?_eq_some_iff args _ _ _).mpr ⟨at_arg, at_param, refused, earlier⟩]
  · rw [checkArguments, if_pos count]
    constructor
    · intro error
      cases error
      exact .count count
    · intro misfits
      cases misfits with
      | count _ => rfl
      | kind same => exact absurd same count

theorem accepts_or_misfits : m.Accepts args ∨ ∃ fault, m.Misfits args fault := by
  cases checked : m.checkArguments args with
  | ok _ => exact .inl ((m.checkArguments_eq_ok_iff args).mp checked)
  | error fault => exact .inr ⟨fault, (m.checkArguments_eq_error_iff args fault).mp checked⟩

end HostMethod

end TokenDispatch
