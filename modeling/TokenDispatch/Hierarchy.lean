import TokenDispatch.Value

/-!
Classes and interfaces by name. A later definition of a name hides an earlier one, names need not be
defined to be mentioned, and nothing forbids a cycle. A search over all parents ends on any
hierarchy, since it takes up no name twice. A walk up superclasses keeps no such account: where it
comes back to a name it goes on for ever, and what is kept of it here is a finite part.
-/

namespace TokenDispatch

structure ClassEntry where
  name : String
  /-- Absent for the root class and for interfaces. -/
  superclass : Option String
  /-- The interfaces a class implements, or those an interface extends. -/
  interfaces : List String
  isInterface : Bool
deriving DecidableEq

namespace ClassEntry

/-- Where one edge leads: to the superclass first, then to the interfaces as declared. -/
def parents (entry : ClassEntry) : List String :=
  entry.superclass.toList ++ entry.interfaces

end ClassEntry

/-- The definitions made so far, the newest first. -/
structure Hierarchy where
  entries : List ClassEntry

namespace Hierarchy

def define (h : Hierarchy) (entry : ClassEntry) : Hierarchy := ⟨entry :: h.entries⟩

/-- A class that names no superclass extends the root class. -/
def defineClass (h : Hierarchy) (name : String) (superclass : Option String)
    (interfaces : List String) : Hierarchy :=
  h.define ⟨name, some (superclass.getD ClassName.object), interfaces, false⟩

def defineInterface (h : Hierarchy) (name : String) (parents : List String) : Hierarchy :=
  h.define ⟨name, none, parents, true⟩

/-- The root class, the classes of boxed primitives and of strings, and their interfaces. -/
def builtin : Hierarchy :=
  let roots : Hierarchy := ⟨[⟨ClassName.object, none, [], false⟩]⟩
  let interfaces :=
    (roots.defineInterface ClassName.charSequence []).defineInterface ClassName.comparable []
  let numbers := (Prim.all.filter Prim.isNumeric).foldl
    (fun h kind => h.defineClass kind.wrapper (some ClassName.number) [ClassName.comparable])
    (interfaces.defineClass ClassName.number none [])
  ((numbers.defineClass Prim.boolean.wrapper none [ClassName.comparable]).defineClass
      Prim.char.wrapper none [ClassName.comparable]).defineClass
    ClassName.string none [ClassName.charSequence, ClassName.comparable]

def find? (h : Hierarchy) (name : String) : Option ClassEntry :=
  h.entries.find? (·.name == name)

def isInterface (h : Hierarchy) (name : String) : Bool := (h.find? name).any (·.isInterface)

def superclass? (h : Hierarchy) (name : String) : Option String :=
  (h.find? name).bind (·.superclass)

/-- The first `limit` names of the walk from `name` up its superclasses. -/
def walk (h : Hierarchy) (name : String) : Nat → List String
  | 0 => []
  | limit + 1 =>
      name :: match h.superclass? name with
        | none => []
        | some parent => h.walk parent limit

/-- The walk from `name` to its end, if it has one. Each name but the last is defined, so a walk
that ends at all has at most one name more than there are definitions. A walk that goes on for ever
is cut off here, and is not what this gives; `Grounded` says that every walk has an end. -/
def chain (h : Hierarchy) (name : String) : List String := h.walk name (h.entries.length + 1)

def parents (h : Hierarchy) (name : String) : List String :=
  ((h.find? name).map ClassEntry.parents).getD []

/-- The definitions of names that are not among `seen`. -/
def unseen (h : Hierarchy) (seen : List String) : Nat :=
  h.entries.countP fun entry => !seen.contains entry.name

theorem unseen_cons_le (h : Hierarchy) (seen : List String) (name : String) :
    h.unseen (name :: seen) ≤ h.unseen seen :=
  List.countP_mono_left fun entry _ absent => by simp_all

theorem countP_lt_countP {p q : ClassEntry → Bool} {entries : List ClassEntry} {entry : ClassEntry}
    (le : ∀ e ∈ entries, p e = true → q e = true) (member : entry ∈ entries)
    (dropped : p entry = false) (kept : q entry = true) : entries.countP p < entries.countP q := by
  induction entries with
  | nil => cases member
  | cons first rest ih =>
      have rest_le : ∀ e ∈ rest, p e = true → q e = true := fun e he => le e (.tail _ he)
      rcases List.mem_cons.1 member with rfl | member
      · have := List.countP_mono_left rest_le
        simp only [List.countP_cons, dropped, kept]
        simp
        omega
      · have := ih rest_le member
        have := le first (.head _)
        simp only [List.countP_cons]
        split <;> split <;> simp_all
        omega

theorem unseen_cons_lt {h : Hierarchy} {seen : List String} {name : String} {entry : ClassEntry}
    (found : h.find? name = some entry) (new : seen.contains name = false) :
    h.unseen (name :: seen) < h.unseen seen := by
  have named : entry.name = name := by simpa using List.find?_some found
  refine countP_lt_countP (fun e _ absent => by simp_all) (List.mem_of_find?_eq_some found) ?_ ?_
  · simp [named]
  · simpa [named] using new

/-- A search gets on when it takes up a name not met before and puts its parents with the names
that wait: a definition is seen for the first time, or there are no parents to put there. -/
theorem search_decreases {h : Hierarchy} {seen waiting next : List String} {name : String}
    (new : ¬ seen.contains name = true)
    (length : next.length = (h.parents name).length + waiting.length) :
    Prod.Lex (· < ·) (· < ·) (h.unseen (name :: seen), next.length)
      (h.unseen seen, (name :: waiting).length) := by
  cases found : h.find? name with
  | some entry => exact Prod.Lex.left _ _ (unseen_cons_lt found (by simpa using new))
  | none =>
      obtain lt | eq := Nat.lt_or_eq_of_le (h.unseen_cons_le seen name)
      · exact Prod.Lex.left _ _ lt
      · rw [eq]
        exact Prod.Lex.right _ (by simp [length, parents, found])

/-- Takes names off the front of a queue, and appends the parents of each name not met before. -/
def reach (h : Hierarchy) (seen : List String) : List String → List String
  | [] => []
  | name :: queue =>
      if seen.contains name then h.reach seen queue
      else name :: h.reach (name :: seen) (queue ++ h.parents name)
termination_by queue => (h.unseen seen, queue.length)
decreasing_by
  · exact Prod.Lex.right _ (Nat.lt_succ_self _)
  · exact search_decreases ‹_› (by rw [List.length_append, Nat.add_comm])

/-- The names that can be reached from `name`, itself included, in order of distance. -/
def reachable (h : Hierarchy) (name : String) : List String := h.reach [] [name]

/-- Takes names off a stack until one is `sup`. A name not met before leaves its parents there, the
one declared last on top. -/
def climb (h : Hierarchy) (sup : String) (seen : List String) : List String → Bool
  | [] => false
  | name :: stack =>
      if seen.contains name then h.climb sup seen stack
      else name == sup || h.climb sup (name :: seen) ((h.parents name).reverse ++ stack)
termination_by stack => (h.unseen seen, stack.length)
decreasing_by
  · exact Prod.Lex.right _ (Nat.lt_succ_self _)
  · exact search_decreases ‹_› (by rw [List.length_append, List.length_reverse])

/-- Every name is below itself and below the root class, defined or not. -/
def isSubtype (h : Hierarchy) (sub sup : String) : Bool :=
  sub == sup || sup == ClassName.object || h.climb sup [] [sub]

/-- Whether an element of a primitive array may be `item`: what is in a box of the class that goes
with the kind, and for a kind of number whatever number is in a box. -/
def admits (kind : Prim) (item : Value) : Bool :=
  item.boxed?.any fun p =>
    item.class? == some kind.wrapper || kind.isNumeric && p.kind.isNumeric

/-- Whether a reference of the given type may hold a value. Null fits every reference type; void and
primitive types hold no references. -/
def isInstance (h : Hierarchy) : Ty → Value → Bool
  | .void, _ | .prim _, _ => false
  | .named name, v => v.isNull || v.class?.any fun className => h.isSubtype className name
  | .array (.prim kind), v => v.isNull || v.array?.any fun items => items.all (admits kind)
  | .array element, v =>
      v.isNull || v.array?.any fun items => element.isObject || items.all (h.isInstance element)

end Hierarchy

end TokenDispatch
