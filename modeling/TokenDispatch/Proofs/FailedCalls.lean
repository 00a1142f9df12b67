import TokenDispatch.Proofs.StackTracking

/-!
What a call that fails leaves behind. An edit that fails may have taken operands off already, or
have put depths on record; the code and the labels of the routine are as they were. The one call
that loses more is the end of a routine, which drops the routine.
-/

namespace TokenDispatch

variable {σ : Type}

/-- An action takes one state to another and answers with an error. -/
def Fails {α : Type} (x : ExceptT EmitError (StateM σ) α) (s : σ) (e : EmitError) (s' : σ) : Prop :=
  @Eq (Except EmitError α × σ) (x s) (.error e, s')

namespace Fails

theorem bind_iff {α β : Type} (x : ExceptT EmitError (StateM σ) α)
    (f : α → ExceptT EmitError (StateM σ) β) (s s' : σ) (e : EmitError) :
    Fails (x >>= f) s e s' ↔ Fails x s e s' ∨ ∃ a s₁, Succeeds x s a s₁ ∧ Fails (f a) s₁ e s' := by
  have run : (x >>= f) s = (ExceptT.bindCont f (x s).1 : StateM σ (Except EmitError β)) (x s).2 :=
    rfl
  unfold Fails Succeeds
  rw [run]
  generalize x s = outcome
  obtain ⟨raised | a, s₁⟩ := outcome
  · constructor
    · intro h
      cases h
      exact .inl rfl
    · rintro (h | ⟨_, _, h, -⟩)
      · cases h
        rfl
      · cases h
  · constructor
    · exact fun h => .inr ⟨a, s₁, rfl, h⟩
    · rintro (h | ⟨_, _, h, rest⟩)
      · cases h
      · cases h
        exact rest

theorem throw_iff {α : Type} (e raised : EmitError) (s s' : σ) :
    Fails (throw raised : ExceptT EmitError (StateM σ) α) s e s' ↔ raised = e ∧ s = s' := by
  change @Eq (Except EmitError α × σ) (.error raised, s) (.error e, s') ↔ _
  simp

theorem not_ok_pair {α : Type} (a : α) (e : EmitError) (s s' : σ) :
    ¬ @Eq (Except EmitError α × σ) (.ok a, s) (.error e, s') := by
  simp

theorem of_isOk_eq_false {α : Type} (x : ExceptT EmitError (StateM σ) α) (s : σ)
    (h : (x s : Except EmitError α × σ).1.isOk = false) :
    ∃ e, Fails x s e (x s : Except EmitError α × σ).2 := by
  unfold Fails
  generalize x s = outcome at h ⊢
  obtain ⟨e | a, s'⟩ := outcome
  · exact ⟨e, rfl⟩
  · cases h

/-- What does not succeed fails. -/
theorem of_not_succeeds {α : Type} (x : ExceptT EmitError (StateM σ) α) (s : σ)
    (h : ∀ a s', ¬ Succeeds x s a s') : ∃ e s', Fails x s e s' := by
  unfold Fails
  unfold Succeeds at h
  generalize x s = outcome at h ⊢
  obtain ⟨e | a, s'⟩ := outcome
  · exact ⟨e, s', rfl⟩
  · exact absurd rfl (h a s')

end Fails

namespace OpenRoutine

/-- A routine that differs at most in the depths on record. -/
def Retains (r r' : OpenRoutine) : Prop :=
  ∃ depth entryDepth, r' = { r with depth := depth, entryDepth := entryDepth }

theorem Retains.refl (r : OpenRoutine) : r.Retains r := ⟨r.depth, r.entryDepth, rfl⟩

theorem Retains.trans {r s t : OpenRoutine} (first : r.Retains s) (second : s.Retains t) :
    r.Retains t := by
  obtain ⟨_, _, rfl⟩ := first
  obtain ⟨depth, entryDepth, rfl⟩ := second
  exact ⟨depth, entryDepth, rfl⟩

end OpenRoutine

namespace Edit

/-- An edit that changes code or labels only where it succeeds. -/
def SparesOnError (edit : Edit Unit) : Prop :=
  ∀ (r r' : OpenRoutine) (e : EmitError), Fails edit r e r' → r.Retains r'

/-- An edit that changes no code and no label, whatever comes of it. -/
structure Spares (edit : Edit Unit) : Prop where
  onSuccess : ∀ (r r' : OpenRoutine) (u : Unit), Succeeds edit r u r' → r.Retains r'
  onError : SparesOnError edit

theorem SparesOnError.after {x : Edit Unit} {f : Unit → Edit Unit} (first : Spares x)
    (rest : ∀ u, SparesOnError (f u)) : SparesOnError (x >>= f) := by
  intro r r' e h
  obtain failed | ⟨u, s, passed, failed⟩ := (Fails.bind_iff x f r r' e).mp h
  · exact first.onError r r' e failed
  · exact (first.onSuccess r s u passed).trans (rest u s r' e failed)

namespace Spares

theorem bind {x : Edit Unit} {f : Unit → Edit Unit} (first : Spares x)
    (rest : ∀ u, Spares (f u)) : Spares (x >>= f) where
  onSuccess r r' u h := by
    obtain ⟨v, s, passed, next⟩ := (Succeeds.bind_iff x f r r' u).mp h
    exact (first.onSuccess r s v passed).trans ((rest v).onSuccess s r' u next)
  onError := .after first fun u => (rest u).onError

theorem forM {α : Type} {f : α → Edit Unit} (each : ∀ a, Spares (f a)) (xs : List α) :
    Spares (xs.forM f) := by
  induction xs with
  | nil =>
      refine ⟨fun r r' u h => ?_, fun r r' e h => ?_⟩
      · obtain ⟨-, rfl⟩ := (Succeeds.pure_iff _ _ _ _).mp h
        exact .refl r
      · exact absurd h (Fails.not_ok_pair _ e r r')
  | cons a xs ih => exact bind (each a) fun _ => ih

theorem pop (count : Nat) : Spares (Edit.pop count) where
  onSuccess r r' u h := by
    obtain ⟨-, -, rfl⟩ := (pop_iff count r r' u).mp h
    exact ⟨_, _, rfl⟩
  onError r r' e h := by
    rw [Fails, Edit.pop] at h
    split at h
    · cases h
      exact .refl r
    · split at h <;> cases h
      exact .refl r

theorem branchTo (label : Label) : Spares (Edit.branchTo label) where
  onSuccess r r' u h := by
    obtain ⟨-, rfl⟩ := (branchTo_iff label r r' u).mp h
    exact ⟨_, _, rfl⟩
  onError r r' e h := by
    unfold Fails Edit.branchTo at h
    split at h
    · cases h
      exact .refl r
    · dsimp only at h
      split at h <;> cases h
      exact .refl r

end Spares

namespace SparesOnError

theorem throw (raised : EmitError) : SparesOnError (throw raised) := by
  intro r r' e h
  obtain ⟨-, rfl⟩ := (Fails.throw_iff e raised r r').mp h
  exact .refl r

theorem push (count : Nat) : SparesOnError (Edit.push count) := by
  intro r r' e h
  rw [Fails, Edit.push] at h
  split at h
  · cases h
    exact .refl r
  · split at h <;> cases h
    exact .refl r

/-- Nothing forbids to add an instruction once its operands are off the stack. -/
theorem not_fails_append (i : Instr Label) (r r' : OpenRoutine) (e : EmitError) :
    ¬ Fails (Edit.append i) r e r' := by
  intro h
  rw [Fails, Edit.append] at h
  split at h <;> cases h

theorem append (i : Instr Label) : SparesOnError (Edit.append i) :=
  fun r r' e h => absurd h (not_fails_append i r r' e)

theorem push_append (count : Nat) (i : Instr Label) :
    SparesOnError (do Edit.push count; Edit.append i) := by
  intro r r' e h
  obtain failed | ⟨_, s, -, failed⟩ := (Fails.bind_iff _ _ r r' e).mp h
  · exact push count r r' e failed
  · exact absurd failed (not_fails_append i s r' e)

theorem instruct (i : Instr Label) : SparesOnError (Edit.instruct i) :=
  .after (.pop i.pops) fun _ => push_append i.pushes i

theorem placeLabel (label : Label) : SparesOnError (Edit.placeLabel label) := by
  intro r r' e h
  unfold Fails Edit.placeLabel at h
  split at h <;> cases h
  · exact .refl r
  · exact .refl r

theorem loadLocal (slot : Nat) : SparesOnError (Edit.loadLocal slot) := by
  intro r r' e h
  change Fails (if slot < r.maxLocals then _ else _) r e r' at h
  split at h
  · exact instruct _ r r' e h
  · exact throw _ r r' e h

theorem ret (kind : ReturnKind) : SparesOnError (Edit.ret kind) := by
  intro r r' e h
  cases kind with
  | void =>
      change Fails (if r.sig.returnsVoid then _ else _) r e r' at h
      split at h
      · exact instruct _ r r' e h
      · exact throw _ r r' e h
  | reference =>
      change Fails (if r.sig.ret.isReference then _ else _) r e r' at h
      split at h
      · exact instruct _ r r' e h
      · exact throw _ r r' e h

theorem lookupSwitch (default : Label) (cases : List (Int32 × Label)) :
    SparesOnError (Edit.lookupSwitch default cases) := by
  refine .after (.pop 1) fun _ => .after (.branchTo default) fun _ =>
    .after (.forM (fun c => .branchTo c.2) cases) fun _ => ?_
  dsimp only
  split
  · exact throw _
  · exact append _

theorem tableSwitch (low : Int32) (default : Label) (targets : List Label) :
    SparesOnError (Edit.tableSwitch low default targets) :=
  .after (.pop 1) fun _ => .after (.branchTo default) fun _ =>
    .after (.forM .branchTo targets) fun _ => append _

end SparesOnError

end Edit

namespace Assembler

def Call.endsRoutine : Call → Bool
  | perform .endRoutine => true
  | _ => false

/-- What a call that fails leaves of an assembler. -/
inductive Leaves (a : Assembler) : Call → Assembler → Prop
  | unchanged {c : Call} (other : c.endsRoutine = false) : Leaves a c a
  | retained {c : Call} {r r' : OpenRoutine} (other : c.endsRoutine = false)
      (current : a.current = some r) (retains : r.Retains r') :
      Leaves a c { a with current := some r' }
  | dropped : Leaves a (.perform .endRoutine) { a with current := none }

variable {a a' : Assembler} {e : EmitError}

theorem leaves_of_within {edit : Edit Unit} (spares : edit.SparesOnError) {c : Call}
    (other : c.endsRoutine = false) (failed : Fails (within edit) a e a') : a.Leaves c a' := by
  obtain ⟨header, routines, current⟩ := a
  cases current with
  | none =>
      cases failed
      exact .unchanged other
  | some r =>
      have run : within edit ⟨header, routines, some r⟩ =
          ((edit r).1, ⟨header, routines, some (edit r).2⟩) := rfl
      rw [Fails, run] at failed
      obtain ⟨error, rfl⟩ := Prod.mk.inj failed
      exact .retained other rfl (spares r (edit r).2 e (Prod.ext error rfl))

theorem leaves_of_throw {raised : EmitError} {c : Call} (other : c.endsRoutine = false)
    (failed : Fails (throw raised : Emit Assembler Unit) a e a') : a.Leaves c a' := by
  obtain ⟨-, rfl⟩ := (Fails.throw_iff e raised a a').mp failed
  exact .unchanged other

/-- A directive that fails leaves code, labels and finished routines, unless it is the end of a
routine. -/
theorem leaves_of_perform (d : Directive Label) (failed : Fails (perform d) a e a') :
    a.Leaves (.perform d) a' := by
  cases d with
  | beginUnit name base =>
      unfold Fails perform beginUnit at failed
      dsimp only at failed
      split at failed <;> cases failed
      exact .unchanged rfl
  | beginRoutine access name sig =>
      unfold Fails perform beginRoutine at failed
      dsimp only at failed
      split at failed
      · cases failed
        exact .unchanged rfl
      · cases failed
        exact .unchanged rfl
      · split at failed <;> cases failed
        exact .unchanged rfl
  | placeLabel label => exact leaves_of_within (.placeLabel label) rfl failed
  | loadLocal slot => exact leaves_of_within (.loadLocal slot) rfl failed
  | pushInt _ | pushNull | arrayLoad | unbox _ | box _ =>
      exact leaves_of_within (.instruct _) rfl failed
  | checkCast target =>
      rw [perform] at failed
      split at failed
      · exact leaves_of_within (.instruct _) rfl failed
      · exact leaves_of_throw rfl failed
  | invoke kind owner name sig =>
      rw [perform, invoke] at failed
      split at failed
      · exact leaves_of_throw rfl failed
      · exact leaves_of_within (.instruct _) rfl failed
  | ret kind => exact leaves_of_within (.ret kind) rfl failed
  | lookupSwitch default cases =>
      exact leaves_of_within (.lookupSwitch default cases) rfl failed
  | tableSwitch low default targets =>
      rw [perform] at failed
      split at failed
      · exact leaves_of_throw rfl failed
      · exact leaves_of_within (.tableSwitch low default targets) rfl failed
  | endRoutine =>
      obtain ⟨header, routines, current⟩ := a
      cases current with
      | none =>
          cases failed
          exact .dropped
      | some r =>
          simp only [Fails, perform, endRoutine] at failed
          split at failed
          · cases failed
            exact .dropped
          · split at failed <;> cases failed
            exact .dropped

theorem leaves_of_fails (c : Call) (failed : Fails c.act a e a') : a.Leaves c a' := by
  cases c with
  | perform d => exact leaves_of_perform d failed
  | newLabel =>
      -- A new label is always given, also outside of every routine.
      cases failed

/-- All that a call can do, and whether it succeeds. -/
theorem act_cases (a : Assembler) (c : Call) :
    (c.act a : Except EmitError Unit × Assembler).1.isOk = true ∧
        a.Takes c (c.act a : Except EmitError Unit × Assembler).2 ∨
      (c.act a : Except EmitError Unit × Assembler).1.isOk = false ∧
        a.Leaves c (c.act a : Except EmitError Unit × Assembler).2 := by
  cases run : (c.act a : Except EmitError Unit × Assembler) with
  | mk result a' =>
      cases result with
      | error e => exact .inr ⟨rfl, leaves_of_fails c run⟩
      | ok u => exact .inl ⟨rfl, takes_of_succeeds run⟩

end Assembler

end TokenDispatch
