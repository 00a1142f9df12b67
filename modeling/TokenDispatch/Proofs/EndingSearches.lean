import TokenDispatch.Proofs.DefinitionOrder
import TokenDispatch.Proofs.Requests

/-!
Searches step by step, with no bound on the number of steps. A search among the names that wait ends
on any hierarchy, since it takes up no name twice. A search up superclasses keeps no such account:
it ends where it finds something, or where the walk ends. Whatever a request comes to is what the
bounded searches give, and where definitions come in order every request comes to an end.
-/

namespace TokenDispatch

namespace Hierarchy

variable {h : Hierarchy} {α : Type}

/-- A search up superclasses: it stops at the first name that declares something, or past the last
one. A walk that comes back to a name has no result. -/
inductive Seeks (h : Hierarchy) (declared? : String → Option α) : String → Option α → Prop
  | found {name : String} {a : α} (declares : declared? name = some a) :
      Seeks h declared? name (some a)
  | missed {name : String} (silent : declared? name = none) (last : h.superclass? name = none) :
      Seeks h declared? name none
  | up {name parent : String} {result : Option α} (silent : declared? name = none)
      (superclass : h.superclass? name = some parent) (rest : Seeks h declared? parent result) :
      Seeks h declared? name result

/-- A search among the names that wait: a name met before is skipped, and of a new one that offers
nothing the parents are put with the names that wait. -/
inductive Explores (h : Hierarchy) (put : List String → List String → List String)
    (offer? : String → Option α) : List String → List String → Option α → Prop
  | missed {seen : List String} : Explores h put offer? seen [] none
  | skip {seen waiting : List String} {name : String} {result : Option α}
      (met : seen.contains name = true) (rest : Explores h put offer? seen waiting result) :
      Explores h put offer? seen (name :: waiting) result
  | found {seen waiting : List String} {name : String} {a : α}
      (new : ¬ seen.contains name = true) (offers : offer? name = some a) :
      Explores h put offer? seen (name :: waiting) (some a)
  | on {seen waiting : List String} {name : String} {result : Option α}
      (new : ¬ seen.contains name = true) (silent : offer? name = none)
      (rest : Explores h put offer? (name :: seen) (put (h.parents name) waiting) result) :
      Explores h put offer? seen (name :: waiting) result

section

variable {declared? offer? : String → Option α} {name : String} {names : List String}
  {result other : Option α}

theorem Ascent.seeks (ascent : h.Ascent name names) :
    h.Seeks declared? name (names.findSome? declared?) := by
  induction ascent with
  | @top name last =>
      cases declares : declared? name with
      | some a => simpa [declares] using Seeks.found declares
      | none => simpa [declares] using Seeks.missed declares last
  | @up name parent names superclass _ ih =>
      cases declares : declared? name with
      | some a => simpa [declares] using Seeks.found declares
      | none => simpa [declares] using Seeks.up declares superclass ih

theorem Grounded.seeks_chain (grounded : h.Grounded) :
    h.Seeks declared? name ((h.chain name).findSome? declared?) := by
  obtain ⟨names, ascent⟩ := grounded name
  rw [ascent.chain_eq]
  exact ascent.seeks

/-- The same classes, but none that declares something extends another. -/
def stopAt (h : Hierarchy) (declared? : String → Option α) : Hierarchy :=
  ⟨h.entries.map fun entry =>
    if (declared? entry.name).isSome then { entry with superclass := none } else entry⟩

theorem superclass?_stopAt (name : String) : (h.stopAt declared?).superclass? name =
    if (declared? name).isSome then none else h.superclass? name := by
  have found_eq : (h.stopAt declared?).find? name = (h.find? name).map fun entry =>
      if (declared? entry.name).isSome then { entry with superclass := none } else entry := by
    rw [find?, stopAt, List.find?_map]
    congr 2
    funext entry
    dsimp only [Function.comp_apply]
    split <;> rfl
  rw [superclass?, found_eq, superclass?]
  cases found : h.find? name with
  | none => split <;> rfl
  | some entry =>
      have named : entry.name = name := by simpa using List.find?_some found
      rw [← named]
      simp only [Option.map_some, Option.bind_some]
      split <;> rfl

/-- A search that ends is a walk that ends, where walks stop at what is found. -/
theorem Seeks.ascent (seeks : h.Seeks declared? name result) :
    ∃ names, (h.stopAt declared?).Ascent name names ∧ names.findSome? declared? = result := by
  induction seeks with
  | found declares =>
      refine ⟨_, .top ?_, by simp [declares]⟩
      rw [superclass?_stopAt, declares]
      rfl
  | missed silent last =>
      refine ⟨_, .top ?_, by simp [silent]⟩
      rw [superclass?_stopAt, silent]
      exact last
  | up silent superclass _ ih =>
      obtain ⟨names, ascent, same⟩ := ih
      refine ⟨_, .up ?_ ascent, by simpa [silent] using same⟩
      rw [superclass?_stopAt, silent]
      exact superclass

theorem findSome?_walk_stopAt (name : String) (limit : Nat) :
    ((h.stopAt declared?).walk name limit).findSome? declared? =
      (h.walk name limit).findSome? declared? := by
  induction limit generalizing name with
  | zero => rfl
  | succ limit ih =>
      rw [walk, walk, List.findSome?_cons, List.findSome?_cons, superclass?_stopAt]
      cases declares : declared? name with
      | some a => rfl
      | none =>
          cases superclass : h.superclass? name with
          | none => rfl
          | some parent => exact ih parent

/-- On any hierarchy, a search that ends finds what is first on the walk. -/
theorem Seeks.eq_chain (seeks : h.Seeks declared? name result) :
    result = (h.chain name).findSome? declared? := by
  obtain ⟨names, ascent, same⟩ := seeks.ascent
  have entries : (h.stopAt declared?).entries.length = h.entries.length := List.length_map _
  rw [chain, ← findSome?_walk_stopAt, ← entries, ← chain, ascent.chain_eq, same]

/-- A search finds nothing only where the walk ends. -/
theorem Seeks.walked (seeks : h.Seeks declared? name none) : ∃ names, h.Ascent name names := by
  generalize missed : (none : Option α) = result at seeks
  induction seeks with
  | found _ => cases missed
  | missed _ last => exact ⟨_, .top last⟩
  | up _ superclass _ ih =>
      obtain ⟨names, ascent⟩ := ih missed
      exact ⟨_, .up superclass ascent⟩

variable {put : List String → List String → List String} {seen waiting : List String}

theorem Explores.unique (explores : h.Explores put offer? seen waiting result)
    (again : h.Explores put offer? seen waiting other) : result = other := by
  induction explores with
  | missed =>
      cases again
      rfl
  | skip met _ ih =>
      cases again with
      | skip _ rest => exact ih rest
      | found new _ | on new _ _ => exact absurd met new
  | found new offers =>
      cases again with
      | skip met _ => exact absurd met new
      | found _ offers' => exact offers.symm.trans offers'
      | on _ silent _ => cases silent.symm.trans offers
  | on new silent _ ih =>
      cases again with
      | skip met _ => exact absurd met new
      | found _ offers => cases silent.symm.trans offers
      | on _ _ rest => exact ih rest

/-- In a queue, parents wait behind all others. -/
def enqueue (parents waiting : List String) : List String := waiting ++ parents

/-- On a stack, they wait before all others, the one declared last on top. -/
def push (parents waiting : List String) : List String := parents.reverse ++ waiting

theorem explores_reach (seen queue : List String) :
    h.Explores enqueue offer? seen queue ((h.reach seen queue).findSome? offer?) := by
  induction seen, queue using reach.induct h with
  | case1 seen =>
      rw [reach]
      exact .missed
  | case2 seen name queue met ih =>
      rw [reach, if_pos met]
      exact .skip met ih
  | case3 seen name queue new ih =>
      rw [reach, if_neg new, List.findSome?_cons]
      cases offers : offer? name with
      | some a => exact .found new offers
      | none => exact .on new offers ih

theorem explores_reachable_iff (start : String) :
    h.Explores enqueue offer? [] [start] result ↔
      result = (h.reachable start).findSome? offer? :=
  ⟨fun explores => explores.unique (explores_reach [] [start]),
    fun same => same ▸ explores_reach [] [start]⟩

end

/-! The check for a subtype. -/

/-- A name itself, if it is the one that is looked for. -/
def itself? (sup name : String) : Option String := if name == sup then some sup else none

/-- Whether one name is below another, as the check goes: at once, or after a climb. -/
inductive Tests (h : Hierarchy) (sub sup : String) : Bool → Prop
  | at_once (early : (sub == sup || sup == ClassName.object) = true) : Tests h sub sup true
  | climb {found : Option String} (late : (sub == sup || sup == ClassName.object) = false)
      (explores : h.Explores push (itself? sup) [] [sub] found) : Tests h sub sup found.isSome

theorem explores_climb (sup : String) (seen stack : List String) :
    h.Explores push (itself? sup) seen stack
      (if h.climb sup seen stack then some sup else none) := by
  induction seen, stack using climb.induct h with
  | case1 seen =>
      rw [climb]
      exact .missed
  | case2 seen name stack met ih =>
      rw [climb, if_pos met]
      exact .skip met ih
  | case3 seen name stack new ih =>
      rw [climb, if_neg new]
      cases same : name == sup with
      | true => exact .found new (if_pos same)
      | false => exact .on new (if_neg (Bool.eq_false_iff.mp same)) ih

theorem tests_iff (sub sup : String) (result : Bool) :
    h.Tests sub sup result ↔ result = h.isSubtype sub sup := by
  have climbs := h.explores_climb sup [] [sub]
  constructor
  · intro tests
    cases tests with
    | at_once early => rw [isSubtype, early, Bool.true_or]
    | climb late explores =>
        rw [isSubtype, late, Bool.false_or, explores.unique climbs]
        cases h.climb sup [] [sub] <;> rfl
  · rintro rfl
    cases early : sub == sup || sup == ClassName.object with
    | true =>
        rw [isSubtype, early, Bool.true_or]
        exact .at_once early
    | false =>
        rw [isSubtype, early, Bool.false_or]
        have tests := Tests.climb early climbs
        cases found : h.climb sup [] [sub] <;> simpa [found] using tests

end Hierarchy

namespace Environment

variable (env : Environment) (r : Request)

/-- How a method is found from the owner of a request, each search taken step by step. -/
inductive Finds : Option HostMethod → Prop
  | static {found : Option HostMethod} (manner : r.manner = .static)
      (walk : env.hierarchy.Seeks (env.declared? r) r.owner found) : Finds found
  | inherited {receiver : Value} {m : HostMethod} (manner : r.manner = .virtual receiver)
      (walk : env.hierarchy.Seeks (env.instance? r) r.owner (some m)) : Finds (some m)
  | default {receiver : Value} {found : Option HostMethod} (manner : r.manner = .virtual receiver)
      (walk : env.hierarchy.Seeks (env.instance? r) r.owner none)
      (search : env.hierarchy.Explores Hierarchy.enqueue (env.offer? r.name r.sig.descriptor) []
        [r.owner] found) : Finds found
  | interface {receiver : Value} {found : Option HostMethod}
      (manner : r.manner = .interface receiver)
      (search : env.hierarchy.Explores Hierarchy.enqueue (env.offer? r.name r.sig.descriptor) []
        [r.owner] found) : Finds found

/-- Whether a receiver gets past the check that an interface makes of its class. -/
def Passes (className : String) : Prop :=
  match r.manner with
  | .interface _ => env.hierarchy.Tests className r.owner true
  | _ => True

/-- How a request comes to the method that runs, or to a fault, each search taken step by step. -/
inductive Concludes : Except Fault HostMethod → Prop
  | static {m : HostMethod} (manner : r.manner = .static) (finds : env.Finds r (some m))
      (static : m.isStatic = true) : Concludes (.ok m)
  | notStatic {m : HostMethod} (manner : r.manner = .static) (finds : env.Finds r (some m))
      (plain : m.isStatic = false) :
      Concludes (.error (.notStatic r.owner r.name r.sig.descriptor))
  | unresolvedStatic (manner : r.manner = .static) (finds : env.Finds r none) :
      Concludes (.error (.noSuchMethodError r.owner r.name r.sig.descriptor))
  | nullReceiver (null : r.receiver? = some .null) :
      Concludes (.error (.nullReceiver r.owner r.name))
  | notImplemented {receiver : Value} {className : String}
      (manner : r.manner = .interface receiver) (class_eq : receiver.class? = some className)
      (refused : env.hierarchy.Tests className r.owner false) :
      Concludes (.error (.notImplemented className r.owner))
  | unresolved {receiver : Value} {className : String} (receiver_eq : r.receiver? = some receiver)
      (class_eq : receiver.class? = some className) (passes : env.Passes r className)
      (finds : env.Finds r none) :
      Concludes (.error (.noSuchMethodError r.owner r.name r.sig.descriptor))
  | selects {receiver : Value} {className : String} {declared : HostMethod}
      {override : Option HostMethod} (receiver_eq : r.receiver? = some receiver)
      (class_eq : receiver.class? = some className) (passes : env.Passes r className)
      (finds : env.Finds r (some declared))
      (walk : env.hierarchy.Seeks (env.instance? r) className override) :
      Concludes (.ok (override.getD declared))

variable {env r}

theorem passes_iff (className : String) : env.Passes r className ↔ env.Admits r className := by
  obtain ⟨manner, owner, name, sig⟩ := r
  cases manner with
  | interface _ =>
      exact (Hierarchy.tests_iff _ _ true).trans (eq_comm.trans Hierarchy.isSubtype_iff)
  | static | virtual _ => exact Iff.rfl

/-- A class that does not get past the check came through an interface. -/
theorem refused_of_not_admits {receiver : Value} {className : String}
    (receiver_eq : r.receiver? = some receiver) (refused : ¬ env.Admits r className) :
    r.manner = .interface receiver ∧ env.hierarchy.Tests className r.owner false := by
  obtain ⟨manner, owner, name, sig⟩ := r
  cases manner with
  | static => cases receiver_eq
  | virtual _ => exact absurd trivial refused
  | interface _ =>
      cases receiver_eq
      have apart := Bool.eq_false_iff.mpr (mt Hierarchy.isSubtype_iff.mp refused)
      exact ⟨rfl, (Hierarchy.tests_iff _ _ false).mpr apart.symm⟩

theorem explores_interfaces_iff (found : Option HostMethod) :
    env.hierarchy.Explores Hierarchy.enqueue (env.offer? r.name r.sig.descriptor) [] [r.owner]
      found ↔ found = env.findInInterfaces? r.owner r.name r.sig.descriptor :=
  Hierarchy.explores_reachable_iff r.owner

theorem Finds.eq_found {found : Option HostMethod} (finds : env.Finds r found) :
    found = env.found? r := by
  cases finds with
  | static manner walk =>
      simp only [found?, manner]
      exact walk.eq_chain
  | @inherited receiver m manner walk =>
      have on_chain : some m = env.findOnChain? r.owner r.name r.sig.descriptor := walk.eq_chain
      simp only [found?, manner, ← on_chain, Option.some_or]
  | @default receiver found manner walk search =>
      have on_chain : none = env.findOnChain? r.owner r.name r.sig.descriptor := walk.eq_chain
      simp only [found?, manner, ← on_chain, Option.none_or]
      exact (explores_interfaces_iff _).mp search
  | interface manner search =>
      simp only [found?, manner]
      exact (explores_interfaces_iff _).mp search

/-- What a request comes to, on any hierarchy, is what its target is. -/
theorem Concludes.target_eq {result : Except Fault HostMethod}
    (concludes : env.Concludes r result) : env.target r = result := by
  cases concludes with
  | static manner finds static =>
      rw [target_of_static manner, ← finds.eq_found]
      exact if_pos static
  | notStatic manner finds plain =>
      rw [target_of_static manner, ← finds.eq_found]
      exact if_neg (Bool.eq_false_iff.mp plain)
  | unresolvedStatic manner finds =>
      rw [target_of_static manner, ← finds.eq_found]
  | nullReceiver null => exact target_of_null null
  | @notImplemented receiver className manner class_eq refused =>
      have receiver_eq : r.receiver? = some receiver := by rw [Request.receiver?, manner]
      refine target_of_not_admits receiver_eq class_eq fun admits => ?_
      have passes := (passes_iff className).mpr admits
      rw [Passes, manner] at passes
      have same := (Hierarchy.tests_iff _ _ _).mp passes
      cases same.trans ((Hierarchy.tests_iff _ _ _).mp refused).symm
  | unresolved receiver_eq class_eq passes finds =>
      rw [target_of_admits receiver_eq class_eq ((passes_iff _).mp passes), ← finds.eq_found]
  | @selects receiver className declared override receiver_eq class_eq passes finds walk =>
      have on_chain : override = env.findOnChain? className r.name r.sig.descriptor :=
        walk.eq_chain
      rw [target_of_admits receiver_eq class_eq ((passes_iff _).mp passes), ← finds.eq_found,
        on_chain]
      rfl

theorem Finds.walked (finds : env.Finds r none)
    (direct : ∀ receiver, r.manner ≠ .interface receiver) :
    ∃ names, env.hierarchy.Ascent r.owner names := by
  cases finds with
  | static _ walk | default _ walk _ => exact walk.walked
  | interface manner _ => exact absurd manner (direct _)

/-- A request for a missing method is refused only once the walk from its owner has ended, unless it
goes through an interface. -/
theorem Concludes.walked
    (concludes : env.Concludes r (.error (.noSuchMethodError r.owner r.name r.sig.descriptor)))
    (direct : ∀ receiver, r.manner ≠ .interface receiver) :
    ∃ names, env.hierarchy.Ascent r.owner names := by
  cases concludes with
  | unresolvedStatic _ finds | unresolved _ _ _ finds => exact finds.walked direct

section

variable (grounded : env.hierarchy.Grounded)

include grounded

theorem seeks_onChain (className : String) : env.hierarchy.Seeks (env.instance? r) className
    (env.findOnChain? className r.name r.sig.descriptor) :=
  grounded.seeks_chain

theorem finds_found : env.Finds r (env.found? r) := by
  have search : env.hierarchy.Explores Hierarchy.enqueue (env.offer? r.name r.sig.descriptor) []
      [r.owner] (env.findInInterfaces? r.owner r.name r.sig.descriptor) :=
    (explores_interfaces_iff _).mpr rfl
  cases manner : r.manner with
  | static =>
      simp only [found?, manner]
      exact .static manner grounded.seeks_chain
  | virtual receiver =>
      have walk := seeks_onChain (r := r) grounded r.owner
      cases chain : env.findOnChain? r.owner r.name r.sig.descriptor with
      | some m =>
          simp only [found?, manner, chain, Option.some_or]
          exact .inherited manner (chain ▸ walk)
      | none =>
          simp only [found?, manner, chain, Option.none_or]
          exact .default manner (chain ▸ walk) search
  | interface receiver =>
      simp only [found?, manner]
      exact .interface manner search

theorem concludes_target : env.Concludes r (env.target r) := by
  have finds := finds_found (r := r) grounded
  cases receiver_eq : r.receiver? with
  | none =>
      have manner := Request.receiver?_eq_none_iff.mp receiver_eq
      rw [target_of_static manner]
      cases found : env.found? r with
      | none => exact .unresolvedStatic manner (found ▸ finds)
      | some m =>
          rw [found] at finds
          cases static : m.isStatic with
          | true => simpa [static] using Concludes.static manner finds static
          | false => simpa [static] using Concludes.notStatic manner finds static
  | some receiver =>
      cases class_eq : receiver.class? with
      | none =>
          cases Value.class?_eq_none_iff.mp class_eq
          rw [target_of_null receiver_eq]
          exact .nullReceiver receiver_eq
      | some className =>
          by_cases admits : env.Admits r className
          · have passes := (passes_iff className).mpr admits
            rw [target_of_admits receiver_eq class_eq admits]
            cases found : env.found? r with
            | none => exact .unresolved receiver_eq class_eq passes (found ▸ finds)
            | some declared =>
                exact .selects receiver_eq class_eq passes (found ▸ finds)
                  (seeks_onChain grounded className)
          · obtain ⟨manner, refused⟩ := refused_of_not_admits receiver_eq admits
            rw [target_of_not_admits receiver_eq class_eq admits]
            exact .notImplemented manner class_eq refused

end

/-- Where no name is defined twice and superclasses are defined before the classes that extend them,
each walk up superclasses ends and repeats no name, and from a defined name it ends at the root class
or at an interface. So every request, of any kind and on any host methods, comes to a method or to a
fault after finitely many steps, and to no other than its target. -/
theorem ordered_searches_end (env : Environment) (definitions : List Definition)
    (made : env.hierarchy = Hierarchy.builtin.makeAll definitions)
    (ordered : Hierarchy.builtin.Ordered definitions) :
    (∀ name, env.hierarchy.Ascent name (env.hierarchy.chain name) ∧
      (env.hierarchy.chain name).Nodup) ∧
    (∀ name, env.hierarchy.Defines name →
      ∃ last, (env.hierarchy.chain name).getLast? = some last ∧
        (last = ClassName.object ∨ env.hierarchy.isInterface last = true)) ∧
    ∀ (r : Request) (result : Except Fault HostMethod),
      env.Concludes r result ↔ result = env.target r := by
  have layered : env.hierarchy.Layered := made ▸ Hierarchy.layered_of_ordered ordered
  refine ⟨fun name => ?_, fun name defined => ?_, fun r result => ⟨fun concludes => ?_, ?_⟩⟩
  · obtain ⟨names, ascent⟩ := layered.grounded name
    rw [ascent.chain_eq]
    exact ⟨ascent, ascent.nodup⟩
  · obtain ⟨names, last, ascent, at_end, top⟩ := (layered.settled name defined).ascent
    rw [ascent.chain_eq]
    exact ⟨last, at_end, top⟩
  · exact concludes.target_eq.symm
  · rintro rfl
    exact concludes_target layered.grounded

/-! Two interfaces that extend each other, and one that is not defined. -/

/-- Interfaces need not come in order. The last class extends an interface. -/
def inOrder : List Definition :=
  [.ofInterface "Solid" ["Flat", "Ghost"], .ofClass "Base" none ["Solid"],
    .ofInterface "Flat" ["Solid"], .ofClass "Disk" (some "Base") ["Flat", "Ghost"],
    .ofClass "Drawn" (some "Flat") []]

def bases : Environment := ⟨Hierarchy.builtin.makeAll inOrder, ⟨["Flat", "Base"].map areaOf⟩⟩

theorem ordered_searches_end_of_inOrder :
    Hierarchy.builtin.Ordered inOrder ∧
    bases.hierarchy.Ascent "Disk" ["Disk", "Base", ClassName.object] ∧
    bases.hierarchy.isInterface "Flat" = true ∧
    bases.Concludes (areaCall (.interface (.object 0 "Disk")) "Solid") (.ok (areaOf "Base")) ∧
    bases.Concludes (areaCall .static "Ghost")
      (.error (.noSuchMethodError "Ghost" "area" "()I")) := by
  have ordered : Hierarchy.builtin.Ordered inOrder := by decide +kernel
  obtain ⟨walks, tops, ends⟩ := ordered_searches_end bases inOrder rfl ordered
  refine ⟨ordered, (walks "Disk").1, ?_, (ends _ _).mpr ?_, (ends _ _).mpr rfl⟩
  · obtain ⟨last, at_end, top⟩ := tops "Drawn" (by decide +kernel)
    have flat : "Flat" = last := Option.some.inj at_end
    subst flat
    exact top.resolve_left (by decide)
  · cbv

end Environment

end TokenDispatch
