import TokenDispatch.Proofs.Observation
import TokenDispatch.Recorder

/-!
What becomes of a pass over a list when its emitter refuses a call. A recorder that is full after a
number of calls is set beside one that accepts every call. Up to the refusal both record the same;
the refusal ends the pass with the error of the emitter, and no call is tried after it.
-/

namespace TokenDispatch

open Emitter

/-- The call that an event stands for, unless it is about a label. -/
def Event.call? : Event Nat → Option RecordedCall
  | .label _ => none
  | .directive d => some (.directive d)
  | .finish => some .finish

/-- The calls that an emitter was asked for, whether it accepted them or not. -/
def Observed.attempts {σ : Type} (o : Observed σ Nat) : List RecordedCall :=
  o.events.filterMap Event.call?

theorem Observed.attempts_note {σ : Type} (emitter : σ) (events : List (Event Nat))
    (event : Event Nat) :
    attempts ⟨emitter, events ++ [event]⟩ =
      events.filterMap Event.call? ++ event.call?.toList := by
  rw [attempts, List.filterMap_append]
  cases event <;> rfl

namespace Recorder

/-- A recorder that accepts every call beside one that is full after `capacity` calls. Once the
second has refused a call, the first goes on from that call. -/
def besideFull (refusal : RecordedCall → EmitError) (capacity : Nat) :
    Pairing Recorder (Observed Recorder Nat) where
  together r o :=
    r.capacity = none ∧ r.refusal = refusal ∧ r.calls.size ≤ capacity ∧
      o.emitter = { r with capacity := some capacity } ∧ o.attempts = r.calls.toList
  parted e r o :=
    r.capacity = none ∧ ∃ call, r.calls[capacity]? = some call ∧ e = refusal call ∧
      o.emitter.calls.toList = r.calls.toList.take capacity ∧
      o.attempts = r.calls.toList.take (capacity + 1)

variable {refusal : RecordedCall → EmitError} {capacity : Nat}

theorem record_accepted (call : RecordedCall) (r : Recorder)
    (room : r.capacity ≠ some r.calls.size) :
    @Eq (Except EmitError Unit × Recorder) (record call r)
      (.ok (), { r with calls := r.calls.push call }) := by
  rw [record, if_neg room]

theorem record_refused (call : RecordedCall) (r : Recorder)
    (full : r.capacity = some r.calls.size) :
    @Eq (Except EmitError Unit × Recorder) (record call r) (.error (r.refusal call), r) := by
  rw [record, if_pos full]

/-- Recording a call while both recorders run, and while the first runs alone. -/
theorem record_runs (call : RecordedCall) (event : Event Nat) (is_call : event.call? = some call) :
    (besideFull refusal capacity).Runs (record call) (Observed.relay (record call) event) where
  together r o h := by
    obtain ⟨emitter, events⟩ := o
    obtain ⟨accepting, rfl, low, rfl, attempts⟩ := h
    rw [record_accepted call r (by rw [accepting]; exact nofun)]
    by_cases full : r.calls.size = capacity
    · rw [Observed.relay_eq _ event _ (record_refused call _ (congrArg some full.symm))]
      subst full
      refine .inr ⟨_, rfl, accepting, call, Array.getElem?_push_size, rfl, ?_, ?_⟩
      · rw [Array.toList_push]
        exact (List.take_left' rfl).symm
      · rw [Observed.attempts_note, is_call, Array.toList_push,
          List.take_of_length_le (by simp)]
        exact congrArg (· ++ [call]) attempts
    · rw [Observed.relay_eq _ event _
        (record_accepted call _ fun same => full (Option.some.inj same).symm)]
      refine .inl ⟨rfl, accepting, rfl, ?_, rfl, ?_⟩
      · rw [Array.size_push]
        omega
      · rw [Observed.attempts_note, is_call, Array.toList_push]
        exact congrArg (· ++ [call]) attempts
  parted e r o h := by
    obtain ⟨accepting, refused, found, same, kept, attempts⟩ := h
    obtain ⟨lt, -⟩ := Array.getElem?_eq_some_iff.mp found
    have length : r.calls.toList.length = r.calls.size := rfl
    rw [record_accepted call r (by rw [accepting]; exact nofun)]
    refine ⟨accepting, refused, ?_, same, ?_, ?_⟩
    · rw [Array.getElem?_push_lt lt, ← found, Array.getElem?_eq_getElem lt]
    · rw [kept, Array.toList_push, List.take_append_of_le_length (by omega)]
    · rw [attempts, Array.toList_push, List.take_append_of_le_length (by omega)]

theorem besideFull_respects : (besideFull refusal capacity).Respects where
  fresh := {
    together := fun r o h => by
      obtain ⟨emitter, events⟩ := o
      obtain ⟨accepting, same, low, rfl, attempts⟩ := h
      refine .inl ⟨rfl, accepting, same, low, rfl, ?_⟩
      exact (Observed.attempts_note _ _ _).trans ((List.append_nil _).trans attempts)
    parted := fun _ _ _ h => h }
  perform d := record_runs (.directive d) (.directive d) rfl
  finish := record_runs .finish .finish rfl

/-- A pass over a list on a recorder that holds so many calls, or any number of them. -/
def pass (options : Options) (unit : String) (methods : List Method)
    (refusal : RecordedCall → EmitError) (capacity : Option Nat) : Generation Recorder Unit :=
  generate options unit methods ({ capacity := capacity, refusal := refusal } : Recorder)

/-- The calls that such a pass tries. -/
def tried (options : Options) (unit : String) (methods : List Method)
    (refusal : RecordedCall → EmitError) (capacity : Option Nat) : List RecordedCall :=
  (generate options unit methods
    (⟨{ capacity := capacity, refusal := refusal }, []⟩ : Observed Recorder Nat)).emitter.attempts

/-- A call that is refused ends the pass: the calls before it are recorded, the error is that of the
emitter, and nothing is tried after it. Where no call is refused, the pass is the same as on a
recorder that accepts every call. -/
theorem generate_stops_at_refusal (options : Options) (unit : String) (methods : List Method)
    (refusal : RecordedCall → EmitError) (capacity : Nat) :
    (∃ call, (pass options unit methods refusal none).emitter.calls[capacity]? = some call ∧
      (pass options unit methods refusal (some capacity)).result = .error (refusal call) ∧
      (pass options unit methods refusal (some capacity)).emitter.calls.toList =
        (pass options unit methods refusal none).emitter.calls.toList.take capacity ∧
      tried options unit methods refusal (some capacity) =
        (pass options unit methods refusal none).emitter.calls.toList.take (capacity + 1)) ∨
    (pass options unit methods refusal none).emitter.calls.size ≤ capacity ∧
      (pass options unit methods refusal (some capacity)).result =
        (pass options unit methods refusal none).result ∧
      (pass options unit methods refusal (some capacity)).emitter.calls =
        (pass options unit methods refusal none).emitter.calls ∧
      tried options unit methods refusal (some capacity) =
        (pass options unit methods refusal none).emitter.calls.toList := by
  obtain ⟨result, -, emitter⟩ := Observed.generate_eq options unit methods
    ({ capacity := some capacity, refusal := refusal } : Recorder) []
  unfold pass tried
  rw [← result, ← emitter]
  obtain ⟨same, -, -, -, low, left, attempts⟩ | ⟨e, stopped, -, call, found, rfl, kept, attempts⟩ :=
    besideFull_respects.generate options unit methods ({ refusal := refusal } : Recorder)
      (⟨{ capacity := some capacity, refusal := refusal }, []⟩ : Observed Recorder Nat)
      ⟨rfl, rfl, Nat.zero_le capacity, rfl, rfl⟩
  · exact .inr ⟨low, same, by rw [left], attempts⟩
  · exact .inl ⟨call, found, stopped, kept, attempts⟩

end Recorder

end TokenDispatch
