import TokenDispatch.Proofs.Script

/-!
Two runs of the generator side by side, on emitters that may be of different kinds. The runs stay
together for as long as both emitters answer alike. The second may give up earlier, with an error of
its own; the first then goes on by itself, and whatever it does must keep what is known of the two.
A relation that the single calls respect is respected by a whole run; so is an invariant of one
emitter alone.
-/

namespace TokenDispatch

open Script Emitter

/-- How the states of two emitters are related: while both of them run, and once the second has
given up with an error. -/
structure Pairing (σ τ : Type) where
  together : σ → τ → Prop
  parted : EmitError → σ → τ → Prop

namespace Pairing

variable {σ τ L O α β : Type} {p : Pairing σ τ}

/-- What two runs come to: one result in related states, or an error of the second alone. -/
def Ends (p : Pairing σ τ) (first : Except EmitError α × σ) (second : Except EmitError α × τ) :
    Prop :=
  second.1 = first.1 ∧ p.together first.2 second.2 ∨
    ∃ e, second.1 = .error e ∧ p.parted e first.2 second.2

/-- What two passes over a list come to. -/
def Meets (p : Pairing σ τ) (first : Generation σ O) (second : Generation τ O) : Prop :=
  second.result = first.result ∧ second.methods = first.methods ∧
      p.together first.emitter second.emitter ∨
    ∃ e, second.result = .error e ∧ p.parted e first.emitter second.emitter

/-- Two programs that respect a pairing. -/
structure Runs (p : Pairing σ τ) (x : Emit σ α) (y : Emit τ α) : Prop where
  together : ∀ s t, p.together s t → p.Ends (x s) (y t)
  parted : ∀ e s t, p.parted e s t → p.parted e (x s).2 t

namespace Runs

theorem ok (a : α) : p.Runs (pure a : Emit σ α) (pure a) where
  together _ _ h := .inl ⟨rfl, h⟩
  parted _ _ _ h := h

theorem error (e : EmitError) : p.Runs (throw e : Emit σ α) (throw e) where
  together _ _ h := .inl ⟨rfl, h⟩
  parted _ _ _ h := h

theorem bind {x : Emit σ α} {y : Emit τ α} {f : α → Emit σ β} {g : α → Emit τ β}
    (first : p.Runs x y) (next : ∀ a, p.Runs (f a) (g a)) : p.Runs (x >>= f) (y >>= g) where
  together s t h := by
    have ends := first.together s t h
    cases run : (x s : Except EmitError α × σ) with
    | mk r s' =>
        cases run' : (y t : Except EmitError α × τ) with
        | mk r' t' =>
            rw [run, run'] at ends
            obtain ⟨rfl, still⟩ | ⟨e, rfl, apart⟩ := ends
            · cases r' with
              | error e =>
                  rw [Emit.bind_of_error f run, Emit.bind_of_error g run']
                  exact .inl ⟨rfl, still⟩
              | ok a =>
                  rw [Emit.bind_of_ok f run, Emit.bind_of_ok g run']
                  exact (next a).together s' t' still
            · rw [Emit.bind_of_error g run']
              refine .inr ⟨e, rfl, ?_⟩
              cases r with
              | error raised =>
                  rw [Emit.bind_of_error f run]
                  exact apart
              | ok a =>
                  rw [Emit.bind_of_ok f run]
                  exact (next a).parted e s' t' apart
  parted e s t h := by
    have kept := first.parted e s t h
    cases run : (x s : Except EmitError α × σ) with
    | mk r s' =>
        rw [run] at kept
        cases r with
        | error raised =>
            rw [Emit.bind_of_error f run]
            exact kept
        | ok a =>
            rw [Emit.bind_of_ok f run]
            exact (next a).parted e s' t kept

theorem forM {γ : Type} {f : γ → Emit σ Unit} {g : γ → Emit τ Unit}
    (each : ∀ c, p.Runs (f c) (g c)) (cs : List γ) : p.Runs (cs.forM f) (cs.forM g) := by
  induction cs with
  | nil => exact .ok ()
  | cons c cs ih => exact .bind (each c) fun _ => ih

theorem mapM {γ : Type} {f : γ → Emit σ α} {g : γ → Emit τ α}
    (each : ∀ c, p.Runs (f c) (g c)) (cs : List γ) : p.Runs (cs.mapM f) (cs.mapM g) := by
  induction cs with
  | nil => exact .ok []
  | cons c cs ih =>
      rw [List.mapM_cons, List.mapM_cons]
      exact .bind (each c) fun a => .bind ih fun as => .ok (a :: as)

end Runs

/-- A pairing that every single call respects. -/
structure Respects (p : Pairing σ τ) [Emitter σ L O] [Emitter τ L O] : Prop where
  fresh : p.Runs (fresh : Emit σ L) fresh
  perform : ∀ d, p.Runs (perform d : Emit σ Unit) (perform d)
  finish : p.Runs (finish : Emit σ O) finish

namespace Respects

variable [Emitter σ L O] [Emitter τ L O]

theorem follow (h : p.Respects) (ds : List (Directive L)) :
    p.Runs (follow ds : Emit σ Unit) (follow ds) := by
  induction ds with
  | nil => exact .ok ()
  | cons d ds ih => exact .bind (h.perform d) fun _ => ih

theorem emit (h : p.Respects) (s : Script L) : p.Runs (s.emit : Emit σ Unit) s.emit := by
  obtain ⟨calls, stop⟩ := s
  refine .bind (h.follow calls) fun _ => ?_
  cases stop with
  | none => exact .ok ()
  | some e => exact .error e

theorem emitEntry (h : p.Respects) (unit : String) (index : TokenIndex) (routines : List String)
    (form : SwitchForm) :
    p.Runs (emitEntry unit index routines form : Emit σ Unit)
      (emitEntry unit index routines form) := by
  by_cases count : routines.length = index.size
  · rw [emitEntry_eq _ _ _ _ count, emitEntry_eq _ _ _ _ count]
    refine .bind (h.follow _) fun _ => .bind h.fresh fun default => ?_
    refine .bind (.mapM (fun key => ?_) _) fun cases =>
      .bind (h.perform _) fun _ => h.follow _
    rw [map_eq_pure_bind, map_eq_pure_bind]
    exact .bind h.fresh fun label => .ok (key, label)
  · rw [TokenDispatch.emitEntry, TokenDispatch.emitEntry, if_pos count, if_pos count]
    exact .error _

theorem emitRoutines (h : p.Respects) (options : Options) (unit : String) (index : TokenIndex)
    (methods : List Method) :
    p.Runs (emitRoutines options unit index methods : Emit σ O)
      (emitRoutines options unit index methods) := by
  refine .bind (h.emitEntry _ _ _ _) fun _ => .bind (.forM (fun arm => ?_) _) fun _ => h.finish
  obtain ⟨name, m⟩ := arm
  change p.Runs (emitMethodRoutine name m) (emitMethodRoutine name m)
  rw [emitMethodRoutine_eq, emitMethodRoutine_eq]
  exact h.emit _

theorem emitOpening (h : p.Respects) (options : Options) (unit : String) :
    p.Runs (emitOpening options unit : Emit σ Unit) (emitOpening options unit) := by
  refine .bind (h.perform _) fun _ => ?_
  rw [emitInitializer_eq, emitInitializer_eq]
  exact h.follow _

variable {options : Options} {unit : String} {s s' : σ} {t t' : τ}

/-- The first emitter goes on after the opening, and the second has given up. -/
theorem parted_of_opening (h : p.Respects) (methods : List Method) (e : EmitError)
    (r : Except EmitError Unit)
    (opening : @Eq (Except EmitError Unit × σ) (TokenDispatch.emitOpening options unit s) (r, s'))
    (apart : p.parted e s' t) : p.parted e (generate options unit methods s).emitter t := by
  cases r with
  | error raised =>
      rw [generate_of_unopened methods opening]
      exact apart
  | ok _ =>
      by_cases count_le : methods.length ≤ Token.limit
      · rw [generate_of_routines methods count_le opening rfl]
        exact (h.emitRoutines options unit _ _).parted e s' t apart
      · rw [generate_of_long methods (Nat.lt_of_not_le count_le) opening]
        exact apart

/-- Both emitters go on after the opening. -/
theorem meets_of_opening (h : p.Respects) (methods : List Method)
    (opening : @Eq (Except EmitError Unit × σ) (TokenDispatch.emitOpening options unit s)
      (.ok (), s'))
    (opening' : @Eq (Except EmitError Unit × τ) (TokenDispatch.emitOpening options unit t)
      (.ok (), t'))
    (still : p.together s' t') :
    p.Meets (generate options unit methods s) (generate options unit methods t) := by
  by_cases count_le : methods.length ≤ Token.limit
  · have routines := (h.emitRoutines options unit (.ofCount methods.length) (markTokens methods)
      ).together s' t' still
    rcases run : (TokenDispatch.emitRoutines options unit (.ofCount methods.length)
      (markTokens methods) s' : Except EmitError O × σ) with ⟨output, u⟩
    rcases run' : (TokenDispatch.emitRoutines options unit (.ofCount methods.length)
      (markTokens methods) t' : Except EmitError O × τ) with ⟨output', u'⟩
    rw [run, run'] at routines
    rw [generate_of_routines methods count_le opening run,
      generate_of_routines methods count_le opening' run']
    obtain ⟨rfl, still⟩ | ⟨e, rfl, apart⟩ := routines
    · exact .inl ⟨rfl, rfl, still⟩
    · exact .inr ⟨e, rfl, apart⟩
  · have long := Nat.lt_of_not_le count_le
    rw [generate_of_long methods long opening, generate_of_long methods long opening']
    exact .inl ⟨rfl, rfl, still⟩

/-- Two passes over a list that start together come to one result, or the second has given up. -/
theorem generate (h : p.Respects) (options : Options) (unit : String) (methods : List Method)
    (s : σ) (t : τ) (start : p.together s t) :
    p.Meets (generate options unit methods s) (generate options unit methods t) := by
  have opened := (h.emitOpening options unit).together s t start
  rcases opening : (TokenDispatch.emitOpening options unit s : Except EmitError Unit × σ)
    with ⟨r, s'⟩
  rcases opening' : (TokenDispatch.emitOpening options unit t : Except EmitError Unit × τ)
    with ⟨r', t'⟩
  rw [opening, opening'] at opened
  obtain ⟨rfl, still⟩ | ⟨e, rfl, apart⟩ := opened
  · cases r' with
    | error e =>
        rw [generate_of_unopened methods opening, generate_of_unopened methods opening']
        exact .inl ⟨rfl, rfl, still⟩
    | ok _ => exact h.meets_of_opening methods opening opening' still
  · rw [generate_of_unopened methods opening']
    exact .inr ⟨e, rfl, h.parted_of_opening methods e r opening apart⟩

end Respects

/-! Invariants of one emitter. -/

variable {P : σ → Prop} {x : Emit σ α}

/-- A property of the states of one emitter, which nothing runs beside. -/
def keeping (P : σ → Prop) : Pairing σ σ where
  together _ _ := False
  parted _ s _ := P s

theorem Runs.keeps (runs : (keeping P).Runs x x) (s : σ) (holds : P s) :
    P (x s : Except EmitError α × σ).2 :=
  runs.parted .unitNotBegun s s holds

theorem Runs.of_keeps (keeps : ∀ s, P s → P (x s : Except EmitError α × σ).2) :
    (keeping P).Runs x x where
  together _ _ never := never.elim
  parted _ s _ holds := keeps s holds

end Pairing

end TokenDispatch
