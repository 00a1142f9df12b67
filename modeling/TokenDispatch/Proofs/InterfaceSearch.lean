import TokenDispatch.Invocation
import TokenDispatch.Proofs.Subtyping

/-!
The search for a method of an interface. Names wait in a queue, may wait there more than once, and
are marked only when they are taken up; still the search ends on any hierarchy, misses nothing, and
finds what comes first when all ways up are gone through, the shortest first. A name that is skipped
has nothing new above it: its parents wait already, or were met.
-/

namespace TokenDispatch

namespace Hierarchy

variable {h : Hierarchy} {α : Type} {offer? : String → Option α}

/-- The names that lie a number of edges above the given ones, once for each way that leads there.
Ways are in order: those from an earlier name come first, and of those from one name the ways
through its superclass, then the ways through its interfaces as they are declared. -/
def above (h : Hierarchy) (names : List String) : Nat → List String
  | 0 => names
  | distance + 1 => (h.above names distance).flatMap h.parents

theorem above_append (names others : List String) (distance : Nat) :
    h.above (names ++ others) distance = h.above names distance ++ h.above others distance := by
  induction distance with
  | zero => rfl
  | succ distance ih => simp only [above, ih, List.flatMap_append]

/-- What lies above the parents of a name lies one edge further above the name. -/
theorem above_parents (name : String) (distance : Nat) :
    h.above (h.parents name) distance = h.above [name] (distance + 1) := by
  induction distance with
  | zero => simp [above]
  | succ distance ih =>
      rw [above, ih]
      rfl

theorem below_iff_above (start via : String) :
    h.Below start via ↔ ∃ distance, via ∈ h.above [start] distance := by
  constructor
  · intro path
    induction path with
    | refl => exact ⟨0, List.mem_singleton.mpr rfl⟩
    | tail _ edge ih =>
        obtain ⟨distance, mem⟩ := ih
        exact ⟨distance + 1, List.mem_flatMap.mpr ⟨_, mem, edge⟩⟩
  · rintro ⟨distance, mem⟩
    induction distance generalizing via with
    | zero =>
        cases List.mem_singleton.mp mem
        exact .refl
    | succ distance ih =>
        obtain ⟨child, mem, edge⟩ := List.mem_flatMap.mp mem
        exact (ih child mem).tail edge

/-- What a name offers that lies the fewest edges above the given ones, and among those as far comes
first. -/
def FirstAbove (h : Hierarchy) (offer? : String → Option α) (names : List String) (a : α) : Prop :=
  ∃ distance, (h.above names distance).findSome? offer? = some a ∧
    ∀ nearer < distance, (h.above names nearer).findSome? offer? = none

theorem FirstAbove.unique {names : List String} {a b : α} (ha : h.FirstAbove offer? names a)
    (hb : h.FirstAbove offer? names b) : a = b := by
  obtain ⟨m, at_m, before_m⟩ := ha
  obtain ⟨n, at_n, before_n⟩ := hb
  obtain lt | rfl | lt := Nat.lt_trichotomy m n
  · cases at_m.symm.trans (before_n m lt)
  · exact Option.some.inj (at_m.symm.trans at_n)
  · cases at_n.symm.trans (before_m n lt)

/-- Where a name and all so far above it offer nothing, what the others offer comes first. -/
theorem findSome?_above_cons {name : String} {queue : List String} {distance : Nat}
    (quiet : (h.above [name] distance).findSome? offer? = none) :
    (h.above (name :: queue) distance).findSome? offer? =
      (h.above queue distance).findSome? offer? := by
  have split : h.above (name :: queue) distance =
      h.above [name] distance ++ h.above queue distance := above_append [name] queue distance
  rw [split, List.findSome?_append, quiet, Option.none_or]

/-- A name that offers nothing itself may be exchanged for its parents, once all that wait have
been looked at. -/
theorem FirstAbove.exchange {name : String} {queue : List String} {a : α}
    (none_here : offer? name = none)
    (first : h.FirstAbove offer? (queue ++ h.parents name) a) :
    h.FirstAbove offer? (name :: queue) a := by
  obtain ⟨distance, found, before⟩ := first
  simp only [above_append, above_parents, List.findSome?_append, Option.or_eq_none_iff]
    at found before
  -- The name itself offers nothing, and what lies above it waits with one edge less.
  have quiet (k : Nat) (le : k ≤ distance) : (h.above [name] k).findSome? offer? = none := by
    cases k with
    | zero => simp [above, none_here]
    | succ k => exact (before k le).2
  obtain here | ⟨past, further⟩ := Option.or_eq_some_iff.mp found
  · exact ⟨distance, (findSome?_above_cons (quiet distance (Nat.le_refl _))).trans here,
      fun k lt => (findSome?_above_cons (quiet k (Nat.le_of_lt lt))).trans (before k lt).1⟩
  · refine ⟨distance + 1, ?_, fun k lt => ?_⟩
    · rw [← List.singleton_append, above_append, List.findSome?_append, further, Option.some_or]
    · have le := Nat.le_of_lt_succ lt
      rw [findSome?_above_cons (quiet k le)]
      obtain lt | rfl := Nat.lt_or_eq_of_le le
      · exact (before k lt).1
      · exact past

/-- All that lies above a name met before was met as well, or lies nearer to those that wait. -/
theorem Frontier.above_met {seen queue : List String} (frontier : h.Frontier seen queue)
    {name : String} (met : name ∈ seen) (distance : Nat) (via : String)
    (mem : via ∈ h.above [name] distance) :
    via ∈ seen ∨ ∃ nearer < distance, via ∈ h.above queue nearer := by
  induction distance generalizing via with
  | zero =>
      cases List.mem_singleton.mp mem
      exact .inl met
  | succ distance ih =>
      obtain ⟨child, mem, edge⟩ := List.mem_flatMap.mp mem
      obtain before | ⟨nearer, lt, waits⟩ := ih child mem
      · obtain before | waits := frontier child before via edge
        · exact .inl before
        · exact .inr ⟨0, Nat.zero_lt_succ _, waits⟩
      · exact .inr ⟨nearer + 1, Nat.succ_lt_succ lt, List.mem_flatMap.mpr ⟨child, waits, edge⟩⟩

/-- A name met before makes no difference, since none of those met before offered anything. -/
theorem FirstAbove.skip {seen queue : List String} {name : String} {a : α}
    (frontier : h.Frontier seen queue) (met : name ∈ seen)
    (passed : ∀ other ∈ seen, offer? other = none) (first : h.FirstAbove offer? queue a) :
    h.FirstAbove offer? (name :: queue) a := by
  obtain ⟨distance, found, before⟩ := first
  have quiet (k : Nat) (le : k ≤ distance) : (h.above [name] k).findSome? offer? = none := by
    refine List.findSome?_eq_none_iff.mpr fun via mem => ?_
    obtain before_it | ⟨nearer, lt, waits⟩ := frontier.above_met met k via mem
    · exact passed via before_it
    · exact List.findSome?_eq_none_iff.mp (before nearer (Nat.lt_of_lt_of_le lt le)) via waits
  exact ⟨distance, (findSome?_above_cons (quiet distance (Nat.le_refl _))).trans found,
    fun k lt => (findSome?_above_cons (quiet k (Nat.le_of_lt lt))).trans (before k lt)⟩

/-- The search takes up names in the order of their distance, as far as it matters: what it finds
first comes first among all ways up from the names that wait. -/
theorem firstAbove_of_reach (seen queue : List String) (a : α)
    (found : (h.reach seen queue).findSome? offer? = some a) (frontier : h.Frontier seen queue)
    (passed : ∀ other ∈ seen, offer? other = none) : h.FirstAbove offer? queue a := by
  induction seen, queue using reach.induct h with
  | case1 seen =>
      rw [reach] at found
      cases found
  | case2 seen name queue met ih =>
      rw [reach, if_pos met] at found
      have mem := List.contains_iff_mem.mp met
      have rest := frontier.skip mem
      exact .skip rest mem passed (ih found rest passed)
  | case3 seen name queue new ih =>
      rw [reach, if_neg new, List.findSome?_cons] at found
      cases offered : offer? name with
      | some b =>
          rw [offered] at found
          cases found
          have here : (h.above (name :: queue) 0).findSome? offer? = some a := by
            rw [above, List.findSome?_cons, offered]
          exact ⟨0, here, fun nearer lt => absurd lt (Nat.not_lt_zero nearer)⟩
      | none =>
          rw [offered] at found
          have rest := frontier.meet (fun _ => List.mem_append_left (h.parents name))
            fun _ => List.mem_append_right queue
          exact .exchange offered (ih found rest (List.forall_mem_cons.mpr ⟨offered, passed⟩))

theorem reachable_findSome?_eq_none_iff (start : String) :
    (h.reachable start).findSome? offer? = none ↔ ∀ via, h.Below start via → offer? via = none := by
  simp only [List.findSome?_eq_none_iff, mem_reachable_iff]

theorem reachable_findSome?_eq_some_iff (start : String) (a : α) :
    (h.reachable start).findSome? offer? = some a ↔ h.FirstAbove offer? [start] a := by
  have sound (b : α) (found : (h.reachable start).findSome? offer? = some b) :
      h.FirstAbove offer? [start] b :=
    firstAbove_of_reach [] [start] b found nofun nofun
  refine ⟨sound a, fun first => ?_⟩
  have ⟨distance, at_distance, _⟩ := first
  obtain ⟨via, mem, offered⟩ := List.exists_of_findSome?_eq_some at_distance
  cases found : (h.reachable start).findSome? offer? with
  | none =>
      have below := (below_iff_above start via).mpr ⟨distance, mem⟩
      cases offered.symm.trans ((reachable_findSome?_eq_none_iff start).mp found via below)
  | some b => rw [(sound b found).unique first]

end Hierarchy

namespace Environment

/-- An instance method that a defined interface itself declares. -/
structure Offers (env : Environment) (name descriptor via : String) (m : HostMethod) : Prop where
  interface : ∃ entry, env.hierarchy.find? via = some entry ∧ entry.isInterface = true
  declared : env.methods.find? via name descriptor = some m
  plain : m.isStatic = false

/-- A method of the interface that is the fewest edges above a name; of interfaces as far, it is the
one that comes first where each name has its superclass before its interfaces. -/
def Nearest (env : Environment) (start name descriptor : String) (m : HostMethod) : Prop :=
  ∃ distance before via after,
    env.hierarchy.above [start] distance = before ++ via :: after ∧
      env.Offers name descriptor via m ∧
      (∀ other ∈ before, ∀ n, ¬ env.Offers name descriptor other n) ∧
      ∀ nearer < distance, ∀ other ∈ env.hierarchy.above [start] nearer,
        ∀ n, ¬ env.Offers name descriptor other n

variable (env : Environment) (name descriptor : String)

/-- What the search asks of each name. -/
def offer? (via : String) : Option HostMethod :=
  if env.hierarchy.isInterface via then env.methods.findInstance? via name descriptor else none

theorem offer?_eq_some_iff (via : String) (m : HostMethod) :
    env.offer? name descriptor via = some m ↔ env.Offers name descriptor via m := by
  have interface_iff : env.hierarchy.isInterface via = true ↔
      ∃ entry, env.hierarchy.find? via = some entry ∧ entry.isInterface = true := by
    rw [Hierarchy.isInterface]
    cases env.hierarchy.find? via <;> simp
  rw [offer?, Option.ite_none_right_eq_some, HostMethods.findInstance?, Option.filter_eq_some_iff,
    interface_iff]
  constructor
  · rintro ⟨interface, declared, plain⟩
    exact ⟨interface, declared, by simpa using plain⟩
  · rintro ⟨interface, declared, plain⟩
    exact ⟨interface, declared, by simpa using plain⟩

theorem offer?_eq_none_iff (via : String) :
    env.offer? name descriptor via = none ↔ ∀ m, ¬ env.Offers name descriptor via m := by
  simp only [Option.eq_none_iff_forall_ne_some, ne_eq, offer?_eq_some_iff]

theorem nearest_iff (start : String) (m : HostMethod) :
    env.Nearest start name descriptor m ↔
      env.hierarchy.FirstAbove (env.offer? name descriptor) [start] m := by
  simp only [Nearest, Hierarchy.FirstAbove, List.findSome?_eq_some_iff, List.findSome?_eq_none_iff,
    offer?_eq_some_iff, offer?_eq_none_iff, ← exists_and_right, and_assoc]

theorem findInInterfaces?_eq_none_iff (start : String) :
    env.findInInterfaces? start name descriptor = none ↔
      ∀ via, env.hierarchy.Below start via → ∀ m, ¬ env.Offers name descriptor via m := by
  have search : env.findInInterfaces? start name descriptor =
      (env.hierarchy.reachable start).findSome? (env.offer? name descriptor) := rfl
  simp only [search, Hierarchy.reachable_findSome?_eq_none_iff, offer?_eq_none_iff]

theorem findInInterfaces?_eq_some_iff (start : String) (m : HostMethod) :
    env.findInInterfaces? start name descriptor = some m ↔
      env.Nearest start name descriptor m := by
  rw [nearest_iff, ← Hierarchy.reachable_findSome?_eq_some_iff]
  rfl

/-- On any hierarchy the search finds nothing exactly if no interface above a name, the name itself
included, declares an instance method of the given name and descriptor. Otherwise it finds the
method on the nearest such interface, and of those as near the one met first. -/
theorem findInInterfaces?_nearest (start : String) :
    (env.findInInterfaces? start name descriptor = none ↔
      ∀ via, env.hierarchy.Below start via → ∀ m, ¬ env.Offers name descriptor via m) ∧
    ∀ m, env.findInInterfaces? start name descriptor = some m ↔
      env.Nearest start name descriptor m :=
  ⟨env.findInInterfaces?_eq_none_iff name descriptor start,
    env.findInInterfaces?_eq_some_iff name descriptor start⟩

/-! Two interfaces at one distance, one of them on a cycle. -/

/-- The interface of the superclass is met before those above the interface of the class. -/
def tiedHierarchy : Hierarchy :=
  let curved := Hierarchy.builtin.defineInterface "Curved" []
  let cycle := (curved.defineInterface "Solid" ["Flat"]).defineInterface "Flat" ["Solid"]
  (cycle.defineClass "Base" none ["Curved"]).defineClass "Disk" (some "Base") ["Flat"]

def areaOf (owner : String) : HostMethod :=
  { owner
    name := "area"
    sig := ⟨[], .prim .int⟩
    isStatic := false
    body := fun _ heap => (.ok (.int 3), heap) }

def tied : Environment := ⟨tiedHierarchy, ⟨[areaOf "Solid", areaOf "Curved"]⟩⟩

theorem findInInterfaces?_nearest_of_tied :
    tied.findInInterfaces? "Disk" "area" "()I" = some (areaOf "Curved") ∧
      tied.findInInterfaces? "Flat" "area" "()I" = some (areaOf "Solid") := by
  have from_disk := (tied.findInInterfaces?_nearest "area" "()I" "Disk").2 (areaOf "Curved")
  have from_flat := (tied.findInInterfaces?_nearest "area" "()I" "Flat").2 (areaOf "Solid")
  constructor
  · refine from_disk.mpr ((tied.nearest_iff _ _ _ _).mpr ⟨2, rfl, fun nearer lt => ?_⟩)
    match nearer, lt with
    | 0, _ | 1, _ => rfl
  · refine from_flat.mpr ((tied.nearest_iff _ _ _ _).mpr ⟨1, rfl, fun nearer lt => ?_⟩)
    cases Nat.lt_one_iff.mp lt
    rfl

end Environment

end TokenDispatch
