import Mathlib.Data.List.Chain
import TokenDispatch.Proofs.Observation
import TokenDispatch.Proofs.TokenSwitch

/-!
The shape of what is asked of an emitter for one routine: the heading, the events inside, and the
end. In a tidy routine each label is made before the one switch that leads to it and placed after
that switch, where a block has ended, and no block goes on past its end.
-/

namespace TokenDispatch

open Script

variable {L : Type}

namespace Directive

/-- The labels that a switch leads to, the default first. -/
def targets : Directive L → List L
  | .lookupSwitch default cases => default :: cases.map (·.2)
  | .tableSwitch _ default targets => default :: targets
  | _ => []

/-- Whether what comes next is reached by branches only. -/
def endsBlock : Directive L → Bool
  | .ret _ | .lookupSwitch .. | .tableSwitch .. => true
  | _ => false

def placed? : Directive L → Option L
  | .placeLabel label => some label
  | _ => none

/-- A directive that has nothing to do with labels. -/
def Bare (d : Directive L) : Prop := d.targets = [] ∧ d.placed? = none

/-- The instructions that neither branch nor return. -/
def isPlain : Directive L → Bool
  | .loadLocal _ | .pushInt _ | .pushNull | .arrayLoad | .unbox _ | .checkCast _ | .invoke ..
  | .box _ => true
  | _ => false

/-- The order within a routine: a block that has ended is followed by a label or by the end of the
routine, and neither stands anywhere else. -/
def MayFollow (d e : Directive L) : Prop :=
  d.endsBlock = true ↔ e.placed?.isSome = true ∨ e = .endRoutine

end Directive

namespace Event

def directive? : Event L → Option (Directive L)
  | .directive d => some d
  | .label _ | .finish => none

def label? : Event L → Option L
  | .label l => some l
  | .directive _ | .finish => none

/-- Whether an event belongs inside a routine. -/
def isInner : Event L → Bool
  | .label _ => true
  | .directive d => d.isInner
  | .finish => false

end Event

/-- What a routine is opened with. -/
structure Heading where
  access : Access
  name : String
  sig : Signature
deriving DecidableEq

def Heading.opening (h : Heading) : Directive L := .beginRoutine h.access h.name h.sig

/-- The events of one routine, from its heading to its end. No other routine is opened inside. -/
structure Group (L : Type) where
  heading : Heading
  body : List (Event L)
  inner : ∀ e ∈ body, e.isInner = true

namespace Group

def events (g : Group L) : List (Event L) :=
  .directive g.heading.opening :: g.body ++ [.directive .endRoutine]

def directives (g : Group L) : List (Directive L) := g.events.filterMap Event.directive?

/-- The labels that were made for the routine. -/
def labels (g : Group L) : List L := g.events.filterMap Event.label?

/-- Whether the event at a position is a switch that leads to a label. -/
def SwitchesTo (g : Group L) (position : Nat) (label : L) : Prop :=
  ∃ d, g.events[position]? = some (.directive d) ∧ label ∈ d.targets

/-- A routine whose labels and blocks are in order. -/
structure Tidy (g : Group L) : Prop where
  /-- Labels stand where blocks end, and nothing else does. -/
  order : g.directives.IsChain Directive.MayFollow
  /-- Each label is placed once, as often as it was made. -/
  placed : (g.directives.filterMap Directive.placed?).Perm g.labels
  /-- One switch leads to a label, and the label is placed after it. -/
  switched : ∀ position label, g.events[position]? = some (.directive (.placeLabel label)) →
    ∃ switch < position, ∀ other, g.SwitchesTo other label ↔ other = switch
  /-- A switch leads to labels that were made before it. -/
  made : ∀ switch label, g.SwitchesTo switch label →
    ∃ position < switch, g.events[position]? = some (.label label)

end Group

theorem directives_map (ds : List (Directive L)) :
    (ds.map Event.directive).filterMap Event.directive? = ds := by
  rw [List.filterMap_map]
  exact List.filterMap_some

theorem labels_map (ds : List (Directive L)) :
    (ds.map Event.directive).filterMap Event.label? = [] := by
  rw [List.filterMap_map]
  exact List.filterMap_none _

theorem directives_of_labels (ls : List L) :
    (ls.map Event.label).filterMap Event.directive? = [] := by
  rw [List.filterMap_map]
  exact List.filterMap_none _

theorem labels_of_labels (ls : List L) : (ls.map Event.label).filterMap Event.label? = ls := by
  rw [List.filterMap_map]
  exact List.filterMap_some

/-! A routine with no labels, and one with a single switch. -/

namespace Group

variable {g : Group L}

theorem tidy_of_plain (ds : List (Directive L)) (events : g.events = ds.map .directive)
    (bare : ∀ d ∈ ds, d.Bare) (order : ds.IsChain Directive.MayFollow) : g.Tidy := by
  have directives : g.directives = ds := by rw [Group.directives, events, directives_map]
  have mem (i : Nat) (d : Directive L) (found : g.events[i]? = some (.directive d)) : d ∈ ds := by
    have among := List.mem_of_getElem? found
    rw [events] at among
    obtain ⟨e, mem, same⟩ := List.mem_map.mp among
    cases same
    exact mem
  refine ⟨by rw [directives]; exact order, ?_, fun position label found => ?_,
    fun switch label leads => ?_⟩
  · rw [directives, labels, events, labels_map,
      List.filterMap_eq_nil_iff.mpr fun d mem => (bare d mem).2]
  · cases (bare _ (mem position _ found)).2
  · obtain ⟨d, found, among⟩ := leads
    rw [(bare d (mem switch d found)).1] at among
    cases among

/-- What comes before and after the only switch of a routine. -/
structure Switched (g : Group L) (before : List (Event L)) (switch : Directive L)
    (after : List (Directive L)) : Prop where
  events : g.events = before ++ (switch :: after).map .directive
  targets : ∀ l, l ∈ switch.targets ↔ .label l ∈ before
  before : ∀ d, .directive d ∈ before → d.Bare
  switch : switch.placed? = none
  after : ∀ d ∈ after, d.targets = []

namespace Switched

variable {before : List (Event L)} {switch : Directive L} {after : List (Directive L)}

theorem directive_at (h : g.Switched before switch after) (i : Nat) (d : Directive L)
    (found : g.events[i]? = some (.directive d)) :
    (i < before.length ∧ .directive d ∈ before) ∨ (i = before.length ∧ d = switch) ∨
      (before.length < i ∧ d ∈ after) := by
  rw [h.events, List.map_cons] at found
  obtain lt | rfl | gt := Nat.lt_trichotomy i before.length
  · rw [List.getElem?_append_left lt] at found
    exact .inl ⟨lt, List.mem_of_getElem? found⟩
  · rw [List.getElem?_append_right (Nat.le_refl _), Nat.sub_self, List.getElem?_cons_zero] at found
    cases found
    exact .inr (.inl ⟨rfl, rfl⟩)
  · rw [List.getElem?_append_right (Nat.le_of_lt gt)] at found
    obtain ⟨k, k_eq⟩ := Nat.exists_eq_add_of_lt gt
    have index : i - before.length = k + 1 := by omega
    rw [index, List.getElem?_cons_succ] at found
    obtain ⟨e, mem, same⟩ := List.mem_map.mp (List.mem_of_getElem? found)
    cases same
    exact .inr (.inr ⟨gt, mem⟩)

theorem switchesTo_iff (h : g.Switched before switch after) (i : Nat) (l : L) :
    g.SwitchesTo i l ↔ i = before.length ∧ l ∈ switch.targets := by
  constructor
  · intro leads
    obtain ⟨d, found, mem⟩ := leads
    obtain ⟨-, among⟩ | ⟨here, rfl⟩ | ⟨-, among⟩ := h.directive_at i d found
    · rw [(h.before d among).1] at mem
      cases mem
    · exact ⟨here, mem⟩
    · rw [h.after d among] at mem
      cases mem
  · intro ⟨here, mem⟩
    refine ⟨switch, ?_, mem⟩
    rw [h.events, List.map_cons, here, List.getElem?_append_right (Nat.le_refl _), Nat.sub_self,
      List.getElem?_cons_zero]

theorem label_mem_iff (h : g.Switched before switch after) (l : L) :
    .label l ∈ g.events ↔ .label l ∈ before := by
  rw [h.events]
  simp

theorem tidy (h : g.Switched before switch after)
    (order : g.directives.IsChain Directive.MayFollow)
    (placed : (g.directives.filterMap Directive.placed?).Perm g.labels) : g.Tidy := by
  refine ⟨order, placed, fun position l found => ?_, fun position l leads => ?_⟩
  · have after_switch : before.length < position := by
      obtain ⟨-, among⟩ | ⟨-, same⟩ | ⟨gt, -⟩ := h.directive_at position _ found
      · cases (h.before _ among).2
      · have not_placed := h.switch
        rw [← same] at not_placed
        cases not_placed
      · exact gt
    have made : l ∈ switch.targets := by
      have among : l ∈ g.directives.filterMap Directive.placed? := List.mem_filterMap.mpr
        ⟨.placeLabel l, List.mem_filterMap.mpr ⟨_, List.mem_of_getElem? found, rfl⟩, rfl⟩
      obtain ⟨e, mem, is_label⟩ := List.mem_filterMap.mp (placed.mem_iff.mp among)
      cases e with
      | label k =>
          cases is_label
          exact (h.targets l).mpr ((h.label_mem_iff l).mp mem)
      | directive _ | finish => cases is_label
    refine ⟨before.length, after_switch, fun other => ?_⟩
    rw [h.switchesTo_iff]
    exact ⟨And.left, fun here => ⟨here, made⟩⟩
  · obtain ⟨rfl, mem⟩ := (h.switchesTo_iff position l).mp leads
    obtain ⟨i, found⟩ := List.getElem?_of_mem ((h.targets l).mp mem)
    obtain ⟨lt, -⟩ := List.getElem?_eq_some_iff.mp found
    refine ⟨i, lt, ?_⟩
    rw [h.events, List.getElem?_append_left lt, found]

end Switched

end Group

/-! The order of directives in a routine. -/

namespace Directive

theorem isPlain_spec (d : Directive L) (plain : d.isPlain = true) :
    d.isInner = true ∧ d.endsBlock = false ∧ d.Bare := by
  cases d with
  | beginUnit _ _ | beginRoutine _ _ _ | placeLabel _ | ret _ | lookupSwitch _ _
  | tableSwitch _ _ _ | endRoutine => cases plain
  | _ => exact ⟨rfl, rfl, rfl, rfl⟩

theorem placed?_of_endsBlock (d : Directive L) (ends : d.endsBlock = true) : d.placed? = none := by
  cases d with
  | placeLabel _ => cases ends
  | _ => rfl

theorem mayFollow_of_plain (d e : Directive L) (goes_on : d.endsBlock = false)
    (plain : e.isPlain = true) : d.MayFollow e := by
  rw [MayFollow, goes_on, (isPlain_spec e plain).2.2.2]
  refine ⟨nofun, fun ends => ?_⟩
  obtain placed | rfl := ends
  · cases placed
  · cases plain

/-- Plain instructions keep a block open. -/
theorem isChain_of_plain (ds rest : List (Directive L)) (plain : ∀ d ∈ ds, d.isPlain = true)
    (next : ∀ d : Directive L, d.endsBlock = false → (d :: rest).IsChain MayFollow)
    (first : Directive L) (goes_on : first.endsBlock = false) :
    (first :: (ds ++ rest)).IsChain MayFollow := by
  induction ds generalizing first with
  | nil => exact next first goes_on
  | cons d ds ih =>
      obtain ⟨head, tail⟩ := List.forall_mem_cons.mp plain
      rw [List.cons_append, List.isChain_cons_cons]
      exact ⟨mayFollow_of_plain first d goes_on head, ih tail d (isPlain_spec d head).2.1⟩

end Directive

namespace Script

/-- A script all of whose directives are plain instructions, whether or not it is stopped. -/
def Plain (s : Script L) : Prop := ∀ d ∈ s.calls, d.isPlain = true

theorem Plain.of_no_calls {s : Script L} (no_calls : s.calls = []) : s.Plain := by
  intro d mem
  rw [no_calls] at mem
  cases mem

theorem Plain.append {s t : Script L} (hs : s.Plain) (ht : t.Plain) : (s ++ t).Plain := by
  cases stop : s.stop with
  | none =>
      rw [Plain, append_calls _ _ stop, List.forall_mem_append]
      exact ⟨hs, ht⟩
  | some e =>
      rw [append_def, stop]
      exact hs

theorem Plain.all {scripts : List (Script L)} (each : ∀ s ∈ scripts, s.Plain) :
    (Script.all scripts).Plain := by
  induction scripts with
  | nil => exact .of_no_calls rfl
  | cons s scripts ih =>
      obtain ⟨head, tail⟩ := List.forall_mem_cons.mp each
      exact head.append (ih tail)

theorem narrowing_plain (target : Ty) : (narrowing target : Script L).Plain := by
  cases target with
  | void | prim _ => simp [Plain, narrowing, Directive.isPlain]
  | named _ | array _ =>
      simp only [Plain, narrowing]
      split <;> simp [Directive.isPlain]

theorem element_plain (param : Ty) (position : Nat) :
    (element param position : Script L).Plain := by
  rw [element]
  split
  · exact .of_no_calls rfl
  · exact Plain.append (by simp [Plain, Directive.isPlain]) (narrowing_plain param)

theorem receiver_plain (m : Method) : (receiver m : Script L).Plain := by
  rw [receiver]
  split
  · exact .of_no_calls rfl
  · exact Plain.append (by simp [Plain, Directive.isPlain]) (narrowing_plain m.target)

theorem targetCall_plain (m : Method) : (targetCall m : Script L).Plain := by
  rw [targetCall]
  split
  · exact .of_no_calls rfl
  · refine .append (.append (receiver_plain m) (.all fun s mem => ?_))
      (by simp [Plain, Directive.isPlain])
    obtain ⟨⟨param, position⟩, -, rfl⟩ := List.mem_map.mp mem
    exact element_plain param position

theorem reference_plain (ret : Ty) : (reference ret : Script L).Plain := by
  cases ret <;> simp [Plain, reference, Directive.isPlain]

/-! The switch and the branches of the entry point. -/

/-- The switch on the keys of positions leads to all the labels that were made for it. -/
theorem tokenSwitch_spec (form : SwitchForm) (default : L) (cases : List (Int32 × L)) (count : Nat)
    (low : count ≤ Token.limit) (keys : cases.map (·.1) = positionKeys count) :
    (tokenSwitch form default cases).isInner = true ∧
      (tokenSwitch form default cases).endsBlock = true ∧
      (tokenSwitch form default cases).targets = default :: cases.map (·.2) := by
  rw [tokenSwitch_eq form default cases count low keys]
  split <;> exact ⟨rfl, rfl, rfl⟩

/-- The branches of the cases and of the default. -/
def branches (unit : String) (default : L) (arms : List ((Int32 × L) × String)) :
    List (Directive L) :=
  arms.flatMap (fun arm => branch arm.1.2 .special unit arm.2) ++
    branch default .virtual unit RoutineName.fallback

theorem entryBranches_split (unit : String) (default : L) (arms : List ((Int32 × L) × String)) :
    entryBranches unit default arms = branches unit default arms ++ [.endRoutine] := rfl

theorem branches_cons (unit : String) (default : L) (arm : (Int32 × L) × String)
    (arms : List ((Int32 × L) × String)) :
    branches unit default (arm :: arms) =
      branch arm.1.2 .special unit arm.2 ++ branches unit default arms := by
  rw [branches, List.flatMap_cons, List.append_assoc]
  rfl

theorem branch_spec (label : L) (kind : CallKind) (unit routine : String) :
    ∀ d ∈ branch label kind unit routine, d.isInner = true ∧ d.targets = [] := by
  simp [branch, Directive.isInner, Directive.targets]

theorem branches_spec (unit : String) (default : L) (arms : List ((Int32 × L) × String)) :
    ∀ d ∈ branches unit default arms, d.isInner = true ∧ d.targets = [] := by
  induction arms with
  | nil => exact branch_spec default _ _ _
  | cons arm arms ih =>
      rw [branches_cons, List.forall_mem_append]
      exact ⟨branch_spec _ _ _ _, ih⟩

theorem branches_placed (unit : String) (default : L) (arms : List ((Int32 × L) × String)) :
    (branches unit default arms).filterMap Directive.placed? =
      arms.map (·.1.2) ++ [default] := by
  induction arms with
  | nil => rfl
  | cons arm arms ih =>
      rw [branches_cons, List.filterMap_append, ih]
      rfl

theorem branch_isChain (label : L) (kind : CallKind) (unit routine : String)
    (rest : List (Directive L))
    (next : (Directive.ret .reference :: rest).IsChain Directive.MayFollow) (first : Directive L)
    (ends : first.endsBlock = true) :
    (first :: (branch label kind unit routine ++ rest)).IsChain Directive.MayFollow := by
  refine .cons_cons (by simp [Directive.MayFollow, ends, Directive.placed?]) ?_
  refine .cons_cons (by simp [Directive.MayFollow, Directive.endsBlock, Directive.placed?]) ?_
  exact .cons_cons (by simp [Directive.MayFollow, Directive.endsBlock, Directive.placed?]) next

/-- Each branch is a block of its own. -/
theorem branches_isChain (unit : String) (default : L) (arms : List ((Int32 × L) × String))
    (rest : List (Directive L))
    (next : (Directive.ret .reference :: rest).IsChain Directive.MayFollow) (first : Directive L)
    (ends : first.endsBlock = true) :
    (first :: (branches unit default arms ++ rest)).IsChain Directive.MayFollow := by
  induction arms generalizing first with
  | nil => exact branch_isChain _ _ _ _ rest next first ends
  | cons arm arms ih =>
      rw [branches_cons, List.append_assoc]
      exact branch_isChain _ _ _ _ _ (ih _ rfl) first ends

end Script

/-! The routines of a unit. -/

namespace Heading

def initializer : Heading := ⟨.exported, RoutineName.initializer, .initializer⟩

def entry : Heading := ⟨.exported, RoutineName.entry, .dispatch⟩

def method (name : String) : Heading := ⟨.internal, name, .dispatch⟩

end Heading

namespace Group

/-- A routine that runs straight to its return. -/
def straight (heading : Heading) (ds : List (Directive L)) (plain : ∀ d ∈ ds, d.isPlain = true)
    (kind : ReturnKind) : Group L where
  heading := heading
  body := (ds ++ [Directive.ret kind]).map .directive
  inner e mem := by
    obtain ⟨d, among, rfl⟩ := List.mem_map.mp mem
    obtain body | last := List.mem_append.mp among
    · exact (d.isPlain_spec (plain d body)).1
    · cases List.mem_singleton.mp last
      rfl

section

variable {heading : Heading} {ds : List (Directive L)} {plain : ∀ d ∈ ds, d.isPlain = true}
  {kind : ReturnKind}

theorem straight_events : (straight heading ds plain kind).events =
    (heading.opening :: (ds ++ [.ret kind, .endRoutine])).map .directive := by
  simp [straight, events]

theorem straight_directives : (straight heading ds plain kind).directives =
    heading.opening :: (ds ++ [.ret kind, .endRoutine]) := by
  rw [directives, straight_events, directives_map]

theorem straight_tidy : (straight heading ds plain kind).Tidy := by
  refine tidy_of_plain _ straight_events ?_ ?_
  · rw [List.forall_mem_cons, List.forall_mem_append]
    refine ⟨⟨rfl, rfl⟩, fun d mem => (d.isPlain_spec (plain d mem)).2.2, ?_⟩
    simp [Directive.Bare, Directive.targets, Directive.placed?]
  · refine Directive.isChain_of_plain ds _ plain (fun d goes_on => ?_) heading.opening rfl
    exact .cons_cons (by simp [Directive.MayFollow, goes_on, Directive.placed?])
      (.cons_cons (by simp [Directive.MayFollow, Directive.endsBlock]) (.singleton _))

end

/-- The routine of the entry point, with labels for its default and its cases. -/
def entry (unit : String) (switch : Directive L) (inner : switch.isInner = true) (default : L)
    (cases : List (Int32 × L)) (routines : List String) : Group L where
  heading := .entry
  body := entryOpening.tail.map .directive ++ (default :: cases.map (·.2)).map .label ++
    (switch :: branches unit default (cases.zip routines)).map .directive
  inner := by
    rw [List.forall_mem_append, List.forall_mem_append, List.forall_mem_map, List.forall_mem_map,
      List.forall_mem_map]
    refine ⟨⟨?_, fun _ _ => rfl⟩, List.forall_mem_cons.mpr ⟨inner, fun d mem => ?_⟩⟩
    · simp [entryOpening, Event.isInner, Directive.isInner]
    · exact (branches_spec unit default _ d mem).1

section

variable {unit : String} {switch : Directive L} {inner : switch.isInner = true} {default : L}
  {cases : List (Int32 × L)} {routines : List String}

theorem entry_events : (entry unit switch inner default cases routines).events =
    entryOpening.map .directive ++ (default :: cases.map (·.2)).map .label ++
      (switch :: entryBranches unit default (cases.zip routines)).map .directive := by
  rw [entryBranches_split]
  simp [entry, events, entryOpening, Heading.entry, Heading.opening]

theorem entry_directives : (entry unit switch inner default cases routines).directives =
    entryOpening ++ switch :: entryBranches unit default (cases.zip routines) := by
  rw [directives, entry_events, List.filterMap_append, List.filterMap_append, directives_map,
    directives_of_labels, directives_map, List.append_nil]

/-- The entry point is tidy when its switch leads to all of its labels. -/
theorem entry_tidy (ends : switch.endsBlock = true)
    (targets : switch.targets = default :: cases.map (·.2))
    (count : cases.length = routines.length) :
    (entry unit switch inner default cases routines).Tidy := by
  have not_placed := switch.placed?_of_endsBlock ends
  have written : (entry unit switch inner default cases routines).directives =
      entryOpening ++ switch :: (branches unit default (cases.zip routines) ++ [.endRoutine]) :=
    entry_directives
  have made : (entry unit switch inner default cases routines).labels =
      default :: cases.map (·.2) := by
    rw [labels, entry_events, List.filterMap_append, List.filterMap_append, labels_map,
      labels_of_labels, labels_map, List.append_nil, List.nil_append]
  refine Switched.tidy ⟨entry_events, fun l => ?_, fun d mem => ?_, not_placed, ?_⟩ ?_ ?_
  · rw [targets]
    simp
  · have among : d ∈ entryOpening := by simpa using mem
    revert d
    simp [entryOpening, Directive.Bare, Directive.targets, Directive.placed?]
  · rw [entryBranches_split, List.forall_mem_append]
    exact ⟨fun d mem => (branches_spec _ _ _ d mem).2, List.forall_mem_singleton.mpr rfl⟩
  · rw [written]
    refine Directive.isChain_of_plain entryOpening.tail _ ?_ (fun d goes_on => ?_) _ rfl
    · simp [entryOpening, Directive.isPlain]
    · refine .cons_cons ?_ (branches_isChain _ _ _ _ ?_ switch ends)
      · rw [Directive.MayFollow, goes_on, not_placed]
        refine ⟨nofun, fun follows => ?_⟩
        obtain placed | rfl := follows
        · cases placed
        · cases ends
      · exact .cons_cons (by simp [Directive.MayFollow, Directive.endsBlock]) (.singleton _)
  · have case_labels : (cases.zip routines).map (·.1.2) = cases.map (·.2) := by
      rw [← congrArg (List.map (·.2)) (List.map_fst_zip (Nat.le_of_eq count)), List.map_map]
      rfl
    have opening : entryOpening.filterMap Directive.placed? = ([] : List L) := rfl
    have last : [Directive.endRoutine].filterMap Directive.placed? = ([] : List L) := rfl
    rw [written, made, List.filterMap_append, List.filterMap_cons_none not_placed,
      List.filterMap_append, branches_placed, case_labels, opening, last, List.append_nil]
    exact List.perm_append_singleton _ _

end

end Group

end TokenDispatch
