import TokenDispatch.Proofs.Requests

/-!
Overriding. Which body runs depends on the class of the receiver and not on the owner that a call
names: it is the first body up from the receiver's class, whether the call goes through a class or
an interface. Where the owner is itself on the way up, that body is no higher than the one found
from the owner.
-/

namespace TokenDispatch

namespace Environment

variable {env : Environment} {r : Request} {receiver : Value} {className : String}

theorem owner_eq_of_instance? {via : String} {m : HostMethod}
    (declares : env.instance? r via = some m) : m.owner = via :=
  (declares_of_findInstance? declares).2.1

theorem resolves_of_extends (grounded : env.hierarchy.Grounded)
    (manner : r.manner = .virtual receiver) {via : String}
    (path : env.hierarchy.Extends r.owner via) (declares : (env.instance? r via).isSome) :
    ∃ declared, env.hierarchy.Inherits (env.instance? r) r.owner declared ∧
      env.Resolves r declared := by
  obtain ⟨m, found⟩ := Option.isSome_iff_exists.mp declares
  obtain ⟨declared, inherits⟩ := grounded.exists_inherits path found
  exact ⟨declared, inherits, .inherited manner inherits⟩

/-- A call on a receiver that finds a method from its owner runs the first method up from the
receiver's class, if there is one, and else the method found. If the call goes through a class that
the receiver's class extends, and a class up from there declares the method, then what runs is
declared below the nearest such class or by it. -/
theorem perform_runs_override (env : Environment) (r : Request)
    (grounded : env.hierarchy.Grounded) (receiver_eq : r.receiver? = some receiver)
    (class_eq : receiver.class? = some className) :
    (∀ declared args, env.Admits r className → env.Resolves r declared →
      (∀ override : HostMethod, env.hierarchy.Inherits (env.instance? r) className override →
        override.Accepts args → env.Runs override (some receiver) args (env.perform r args)) ∧
      ((∀ via, env.hierarchy.Extends className via → env.instance? r via = none) →
        declared.Accepts args → env.Runs declared (some receiver) args (env.perform r args))) ∧
    ∀ via, r.manner = .virtual receiver → env.hierarchy.Extends className r.owner →
      env.hierarchy.Extends r.owner via → (env.instance? r via).isSome →
      ∃ lower before nearest after, ∃ override : HostMethod,
        env.hierarchy.Ascent className (lower ++ (before ++ nearest :: after)) ∧
        env.hierarchy.Ascent r.owner (before ++ nearest :: after) ∧
        (env.instance? r nearest).isSome ∧ (∀ other ∈ before, env.instance? r other = none) ∧
        env.hierarchy.Inherits (env.instance? r) className override ∧
        override.owner ∈ lower ++ [nearest] ∧ override.owner ∉ after ∧
        ∀ args, override.Accepts args →
          env.Runs override (some receiver) args (env.perform r args) := by
  have runs {m : HostMethod} {args : List Operand} (selects : env.Selects r m)
      (accepts : m.Accepts args) : env.Runs m (some receiver) args (env.perform r args) := by
    rw [← receiver_eq]
    exact perform_runs (target_of_selects grounded selects) accepts
  refine ⟨fun declared args admits resolves => ⟨fun override inherits accepts => ?_,
    fun missing accepts => ?_⟩, fun via manner through path declares => ?_⟩
  · exact runs (.override receiver_eq class_eq admits resolves inherits) accepts
  · exact runs (.declared receiver_eq class_eq admits resolves missing) accepts
  · obtain ⟨declared, inherits, resolves⟩ := resolves_of_extends grounded manner path declares
    obtain ⟨before, nearest, after, from_owner, declares, missing⟩ := inherits
    obtain ⟨lower, ascent⟩ := grounded.ascent_through through from_owner
    obtain ⟨holder, override, inherits, holds, below, not_above⟩ :=
      ascent.inherits_between declares missing
    rw [← owner_eq_of_instance? holds] at below not_above
    have admits : env.Admits r className := by
      rw [Admits, manner]
      trivial
    exact ⟨lower, before, nearest, after, override, ascent, from_owner,
      Option.isSome_of_eq_some declares, missing, inherits, below, not_above, fun args accepts =>
        runs (.override receiver_eq class_eq admits resolves inherits) accepts⟩

theorem perform_runs_override_of_shapes :
    shapes.Runs (areaOf "Square") (some (.object 0 "Square")) []
        (shapes.perform (areaCall (.interface (.object 0 "Square")) "Flat") []) ∧
      shapes.Runs (areaOf "Flat") (some (.object 1 "Disk")) []
        (shapes.perform (areaCall (.interface (.object 1 "Disk")) "Flat") []) ∧
      shapes.Runs (areaOf "Square") (some (.object 0 "Square")) []
        (shapes.perform (areaCall (.virtual (.object 0 "Square")) "Polygon") []) := by
  have from_square : shapes.hierarchy.Ascent "Square" ["Square", "Polygon", ClassName.object] :=
    .up rfl (.up rfl (.top rfl))
  have takes_square : shapes.Admits (areaCall (.interface (.object 0 "Square")) "Flat") "Square" :=
    Or.inr (.head (by decide +kernel : "Polygon" ∈ _) (.single (by decide +kernel)))
  have takes_disk : shapes.Admits (areaCall (.interface (.object 1 "Disk")) "Flat") "Disk" :=
    Or.inr (.single (by decide +kernel))
  refine ⟨?_, ?_, ?_⟩
  · refine ((perform_runs_override shapes _ shapes_grounded rfl rfl).1 (areaOf "Flat") []
      takes_square (shapes_resolves_flat _)).1 (areaOf "Square") ?_ (areaOf_accepts _)
    exact (from_square.inherits_iff _).mpr rfl
  · refine ((perform_runs_override shapes _ shapes_grounded rfl rfl).1 (areaOf "Flat") []
      takes_disk (shapes_resolves_flat _)).2 ?_ (areaOf_accepts _)
    exact shapes_grounded.findSome?_chain_eq_none_iff.mp rfl
  · obtain ⟨-, -, -, -, override, -, -, -, -, inherits, -, -, runs⟩ :=
      (perform_runs_override shapes (areaCall (.virtual (.object 0 "Square")) "Polygon")
        shapes_grounded rfl rfl).2 "Polygon" rfl (.single rfl) .refl rfl
    have first := (from_square.inherits_iff override).mp inherits
    have same : override = areaOf "Square" := Option.some.inj first.symm
    rw [same] at runs
    exact runs [] (areaOf_accepts _)

end Environment

end TokenDispatch
