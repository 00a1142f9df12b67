import TokenDispatch.Proofs.PairedRuns

/-!
Watching an emitter. Every call on an emitter is noted before it is passed on, the labels that it
hands out as well, and nothing else changes: a pass over a list comes to the same whether the
emitter is watched or not.
-/

namespace TokenDispatch

open Emitter

/-- What is noted of an emitter: a label that it made, or a call on it, whatever comes of the
call. -/
inductive Event (L : Type) where
  | label (label : L)
  | directive (d : Directive L)
  | finish
deriving DecidableEq

/-- An emitter with a note of all that it was asked for, the first in front. -/
structure Observed (σ L : Type) where
  emitter : σ
  events : List (Event L) := []

namespace Observed

variable {σ L O α : Type}

/-- Passes a call on. -/
def relay (x : Emit σ α) (event : Event L) : Emit (Observed σ L) α := fun s =>
  let (result, emitter) := x s.emitter
  (result, { emitter := emitter, events := s.events ++ [event] })

theorem relay_eq (x : Emit σ α) (event : Event L) (o : Observed σ L) {result : Except EmitError α}
    {emitter : σ} (run : @Eq (Except EmitError α × σ) (x o.emitter) (result, emitter)) :
    @Eq (Except EmitError α × Observed σ L) (relay x event o)
      (result, { emitter := emitter, events := o.events ++ [event] }) := by
  rw [relay, run]

instance [Emitter σ L O] : Emitter (Observed σ L) L O where
  newLabel s :=
    let (label, emitter) := newLabel s.emitter
    (label, { emitter := emitter, events := s.events ++ [.label label] })
  perform d := relay (perform d) (.directive d)
  finish := relay finish .finish

/-- An emitter beside the same emitter under observation. -/
def beside (σ L : Type) : Pairing σ (Observed σ L) where
  together s t := t.emitter = s
  parted _ _ _ := False

theorem relay_runs (x : Emit σ α) (event : Event L) : (beside σ L).Runs x (relay x event) where
  together s t h := by
    cases h
    exact .inl ⟨rfl, rfl⟩
  parted _ _ _ h := h.elim

theorem beside_respects [Emitter σ L O] : (beside σ L).Respects where
  fresh := {
    together := fun s t h => by
      cases h
      exact .inl ⟨rfl, rfl⟩
    parted := fun _ _ _ h => h.elim }
  perform d := relay_runs (perform d) (.directive d)
  finish := relay_runs finish .finish

/-- Observation makes no difference to generation. -/
theorem generate_eq [Emitter σ L O] (options : Options) (unit : String) (methods : List Method)
    (emitter : σ) (events : List (Event L)) :
    (generate options unit methods (⟨emitter, events⟩ : Observed σ L)).result =
        (generate options unit methods emitter).result ∧
      (generate options unit methods (⟨emitter, events⟩ : Observed σ L)).methods =
        (generate options unit methods emitter).methods ∧
      (generate options unit methods (⟨emitter, events⟩ : Observed σ L)).emitter.emitter =
        (generate options unit methods emitter).emitter := by
  obtain same | ⟨_, -, none⟩ := beside_respects.generate options unit methods emitter
    (⟨emitter, events⟩ : Observed σ L) rfl
  · exact same
  · exact none.elim

end Observed

end TokenDispatch
