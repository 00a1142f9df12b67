import TokenDispatch.Proofs.Assembly

/-!
The depth that an assembler follows while a routine is open. Every instruction is added at some
depth, and the assembler compares these along plain fall-through and along branches to labels that
are placed later; it does not along branches back, where code falls through into a label, and where
several labels are placed together.
-/

namespace TokenDispatch

namespace Edit

/-- Sorting moves a key together with its label. -/
theorem insertCase_perm (first : Int32 × Label) (cases : List (Int32 × Label)) :
    (insertCase first cases).Perm (first :: cases) := by
  induction cases with
  | nil => exact .refl _
  | cons next rest ih =>
      rw [insertCase]
      split
      · exact .refl _
      · exact (ih.cons next).trans (.swap first next rest)

theorem sortCases_perm (cases : List (Int32 × Label)) : (sortCases cases).Perm cases := by
  induction cases with
  | nil => exact .refl _
  | cons first rest ih => exact (insertCase_perm first _).trans (ih.cons first)

theorem mem_insertCase_iff (c first : Int32 × Label) (cases : List (Int32 × Label)) :
    c ∈ insertCase first cases ↔ c = first ∨ c ∈ cases :=
  (insertCase_perm first cases).mem_iff.trans List.mem_cons

theorem mem_sortCases_iff (c : Int32 × Label) (cases : List (Int32 × Label)) :
    c ∈ sortCases cases ↔ c ∈ cases :=
  (sortCases_perm cases).mem_iff

end Edit

namespace OpenRoutine

/-! One instruction more. -/

/-- A routine with one instruction more, added at the depth at hand. Its targets have the depth
after it on record, and no other record is new. -/
structure Adds (r : OpenRoutine) (i : Instr Label) (r' : OpenRoutine) : Prop where
  reachable : r.reachable = true
  pops_le : i.pops ≤ r.depth
  code_eq : r'.code = r.code.push i
  placed_eq : r'.placed = r.placed
  depth_eq : r'.depth = if i.endsBlock then 0 else i.depthAfter r.depth
  reachable_eq : r'.reachable = !i.endsBlock
  maxStack_le : r.maxStack ≤ r'.maxStack
  room : r.depth ≤ r.maxStack → i.depthAfter r.depth ≤ r'.maxStack
  size_eq : r'.entryDepth.size = r.entryDepth.size
  targets : ∀ l ∈ i.targets, r'.entryDepth[l.id]? = some (some (i.depthAfter r.depth))
  kept : ∀ n d : Nat, r.entryDepth[n]? = some (some d) → r'.entryDepth[n]? = some (some d)
  only : ∀ n d : Nat, r'.entryDepth[n]? = some (some d) →
    r.entryDepth[n]? = some (some d) ∨ d = i.depthAfter r.depth ∧ n ∈ i.targets.map Label.id

theorem size_enter (r : OpenRoutine) (depth : Nat) (labels : List Label) :
    (r.enter depth labels).entryDepth.size = r.entryDepth.size := by
  rw [enter]
  dsimp only
  generalize r.entryDepth = known
  induction labels generalizing known with
  | nil => rfl
  | cons l labels ih => rw [List.foldl_cons, ih, Array.size_setIfInBounds]

theorem getElem?_enter (r : OpenRoutine) (depth : Nat) (labels : List Label)
    (bound : ∀ l ∈ labels, l.id < r.entryDepth.size) (n : Nat) :
    (r.enter depth labels).entryDepth[n]? =
      if n ∈ labels.map Label.id then some (some depth) else r.entryDepth[n]? := by
  rw [enter]
  dsimp only
  generalize r.entryDepth = known at bound ⊢
  induction labels generalizing known with
  | nil => rfl
  | cons l labels ih =>
      obtain ⟨first, rest⟩ := List.forall_mem_cons.mp bound
      rw [List.foldl_cons, ih (known.setIfInBounds l.id (some depth)) (by simpa using rest),
        Array.getElem?_setIfInBounds, List.map_cons]
      by_cases later : n ∈ labels.map Label.id
      · rw [if_pos later, if_pos (.tail _ later)]
      · rw [if_neg later]
        by_cases same : l.id = n
        · rw [if_pos same, if_pos first, if_pos (by rw [same]; exact .head _)]
        · rw [if_neg same, if_neg fun mem => ?_]
          cases List.mem_cons.mp mem with
          | inl eq => exact same eq.symm
          | inr mem => exact later mem

theorem adds_after (r : OpenRoutine) (i : Instr Label) (accepts : r.Accepts i)
    (plain : i.targets = []) : r.Adds i (r.after i) where
  reachable := accepts.reachable
  pops_le := accepts.pops_le
  code_eq := rfl
  placed_eq := rfl
  depth_eq := rfl
  reachable_eq := rfl
  maxStack_le := Nat.le_max_left _ _
  room _ := Nat.le_max_right _ _
  size_eq := rfl
  targets l mem := by
    rw [plain] at mem
    cases mem
  kept _ _ h := h
  only _ _ h := .inl h

theorem adds_afterSwitch (r : OpenRoutine) (i : Instr Label) (labels : List Label)
    (pops : i.pops = 1) (pushes : i.pushes = 0) (ends : i.endsBlock = true)
    (reachable : r.reachable = true) (key : 1 ≤ r.depth)
    (same : ∀ l, l ∈ i.targets ↔ l ∈ labels) (admits : ∀ l ∈ labels, r.Admits (r.depth - 1) l) :
    r.Adds i (r.afterSwitch i labels) := by
  have after_eq : i.depthAfter r.depth = r.depth - 1 := by
    rw [Instr.depthAfter, pops, pushes]
    rfl
  have bound : ∀ l ∈ labels, l.id < r.entryDepth.size := fun l mem => by
    obtain ⟨known, get, -⟩ := admits l mem
    exact (Array.getElem?_eq_some_iff.mp get).1
  have get (n : Nat) : (r.afterSwitch i labels).entryDepth[n]? = _ :=
    r.getElem?_enter (r.depth - 1) labels bound n
  refine ⟨reachable, pops ▸ key, rfl, rfl, ?_, ?_, Nat.le_refl _, fun le => ?_,
    r.size_enter _ labels, fun l mem => ?_, fun n d recorded => ?_, fun n d recorded => ?_⟩
  · rw [ends]
    rfl
  · rw [ends]
    rfl
  · rw [after_eq]
    exact Nat.le_trans (Nat.sub_le _ _) le
  · rw [get, if_pos (List.mem_map_of_mem ((same l).mp mem)), after_eq]
  · rw [get]
    split
    · rename_i among
      obtain ⟨l, mem, rfl⟩ := List.mem_map.mp among
      obtain ⟨known, found, fits⟩ := admits l mem
      cases found.symm.trans recorded
      cases fits with
      | inl none_ => cases none_
      | inr same_depth => rw [same_depth]
    · exact recorded
  · rw [get] at recorded
    split at recorded
    · rename_i among
      cases recorded
      obtain ⟨l, mem, rfl⟩ := List.mem_map.mp among
      exact .inr ⟨after_eq.symm, List.mem_map_of_mem ((same l).mpr mem)⟩
    · exact .inl recorded

end OpenRoutine

/-- A directive inside a routine places a label or adds one instruction. -/
theorem Assembler.Extends.cases (r r' : OpenRoutine) (d : Directive Label)
    (h : Extends r d r') :
    (∃ l, d = .placeLabel l ∧ r.placed[l.id]? = some none ∧ r' = r.atLabel l) ∨
      (∀ l, d ≠ .placeLabel l) ∧ ∃ i, r.Adds i r' := by
  cases h with
  | @instruct d i instr accepts =>
      refine .inr ⟨fun l same => ?_, i, r.adds_after i accepts (d.targets_of_instr? i instr)⟩
      rw [same] at instr
      cases instr
  | @placeLabel l unplaced => exact .inl ⟨l, rfl, unplaced, rfl⟩
  | @lookupSwitch default cases reachable key admits distinct =>
      refine .inr ⟨fun l same => (by cases same), .lookupSwitch default (Edit.sortCases cases), ?_⟩
      refine r.adds_afterSwitch _ _ rfl rfl rfl reachable key (fun l => ?_) admits
      simp only [Instr.targets, List.mem_cons, List.mem_map, Edit.mem_sortCases_iff]
  | @tableSwitch low default targets _ reachable key admits =>
      exact .inr ⟨fun l same => (by cases same), .tableSwitch low default targets,
        r.adds_afterSwitch _ _ rfl rfl rfl reachable key (fun l => Iff.rfl) admits⟩

namespace OpenRoutine

/-! What the followed depths are worth. -/

/-- Whether a label is bound to a position. -/
def Binds (r : OpenRoutine) (p : Nat) : Prop := ∃ l : Label, r.placed[l.id]? = some (some p)

/-- Whether several labels are bound to a position. -/
def Crowded (r : OpenRoutine) (p : Nat) : Prop :=
  ∃ l m : Label, l ≠ m ∧ r.placed[l.id]? = some (some p) ∧ r.placed[m.id]? = some (some p)

/-- An instruction of the routine, and the depth it was added at. -/
def AddedAt (r : OpenRoutine) (depths : List Nat) (k : Nat) (i : Instr Label) (d : Nat) : Prop :=
  r.code[k]? = some i ∧ depths[k]? = some d

/-- The depths that instructions were added at, then the one at hand. -/
def levels (r : OpenRoutine) (depths : List Nat) : List Nat := depths ++ [r.depth]

theorem levels_of_lt (r : OpenRoutine) {depths : List Nat} {p : Nat} (lt : p < depths.length) :
    (r.levels depths)[p]? = depths[p]? := List.getElem?_append_left lt

theorem levels_length (r : OpenRoutine) (depths : List Nat) :
    (r.levels depths)[depths.length]? = some r.depth := by
  rw [levels, List.getElem?_append_right (Nat.le_refl _), Nat.sub_self]
  rfl

theorem levels_eq_of_lt (r r' : OpenRoutine) {depths : List Nat} {p : Nat}
    (lt : p < depths.length) : (r'.levels depths)[p]? = (r.levels depths)[p]? := by
  rw [r'.levels_of_lt lt, r.levels_of_lt lt]

/-- A new label is bound nowhere, and the others stay where they are. -/
theorem placed_newLabel_iff (r : OpenRoutine) (n p : Nat) :
    r.newLabel.2.placed[n]? = some (some p) ↔ r.placed[n]? = some (some p) := by
  change (r.placed.push none)[n]? = _ ↔ _
  rw [Array.getElem?_push]
  split
  · rename_i same
    simp [same]
  · exact Iff.rfl

theorem binds_newLabel_iff (r : OpenRoutine) (p : Nat) : r.newLabel.2.Binds p ↔ r.Binds p :=
  exists_congr fun l => r.placed_newLabel_iff l.id p

theorem placed_atLabel (r : OpenRoutine) (l : Label) (unplaced : r.placed[l.id]? = some none)
    (n : Nat) : (r.atLabel l).placed[n]? =
      if l.id = n then some (some r.code.size) else r.placed[n]? := by
  have inside : l.id < r.placed.size := (Array.getElem?_eq_some_iff.mp unplaced).1
  change (r.placed.setIfInBounds l.id (some r.code.size))[n]? = _
  rw [Array.getElem?_setIfInBounds, if_pos inside]

theorem placed_atLabel_self (r : OpenRoutine) (l : Label)
    (unplaced : r.placed[l.id]? = some none) :
    (r.atLabel l).placed[l.id]? = some (some r.code.size) := by
  rw [r.placed_atLabel l unplaced, if_pos rfl]

theorem placed_atLabel_of_bound (r : OpenRoutine) (l m : Label) (p : Nat)
    (unplaced : r.placed[l.id]? = some none) (bound : r.placed[m.id]? = some (some p)) :
    (r.atLabel l).placed[m.id]? = some (some p) := by
  rw [r.placed_atLabel l unplaced, if_neg fun same => ?_]
  · exact bound
  · rw [← same, unplaced] at bound
    cases bound

/-- What a branch brought to a label counts before what control comes by with. -/
theorem depth_atLabel (r : OpenRoutine) (l : Label) : (r.atLabel l).depth =
    (r.entryDepth[l.id]?.join).getD (if r.reachable then r.depth else 0) :=
  rfl

/-- Labels are bound within the code. Where control does not come by, the code is closed: its last
instruction ends a block, and no label is bound behind it. -/
structure Bounded (r : OpenRoutine) : Prop where
  bound_le : ∀ (l : Label) (p : Nat), r.placed[l.id]? = some (some p) → p ≤ r.code.size
  ended : r.reachable = false →
    (∃ i, r.code.back? = some i ∧ i.endsBlock = true) ∧ ¬ r.Binds r.code.size

namespace Bounded

variable {r r' : OpenRoutine} {i : Instr Label}

theorem start (access : Access) (name : String) (sig : Signature) :
    (OpenRoutine.start access name sig).Bounded where
  bound_le _ _ h := nomatch h
  ended h := nomatch h

theorem newLabel (bounded : r.Bounded) : r.newLabel.2.Bounded where
  bound_le l p bound := bounded.bound_le l p ((r.placed_newLabel_iff l.id p).mp bound)
  ended closed := by
    obtain ⟨last, free⟩ := bounded.ended closed
    exact ⟨last, fun binds => free ((r.binds_newLabel_iff _).mp binds)⟩

theorem atLabel (bounded : r.Bounded) (l : Label) (unplaced : r.placed[l.id]? = some none) :
    (r.atLabel l).Bounded where
  bound_le m p bound := by
    rw [r.placed_atLabel l unplaced] at bound
    split at bound
    · cases bound
      exact Nat.le_refl _
    · exact bounded.bound_le m p bound
  ended := nofun

/-- What ends a block closes the code, since no label can be bound behind it yet. -/
theorem adds (bounded : r.Bounded) (adds : r.Adds i r') : r'.Bounded where
  bound_le l p bound := by
    rw [adds.placed_eq] at bound
    rw [adds.code_eq, Array.size_push]
    exact Nat.le_succ_of_le (bounded.bound_le l p bound)
  ended closed := by
    rw [adds.reachable_eq] at closed
    refine ⟨⟨i, ?_, by simpa using closed⟩, fun ⟨l, bound⟩ => ?_⟩
    · rw [adds.code_eq, Array.back?_push]
    · rw [adds.placed_eq, adds.code_eq, Array.size_push] at bound
      exact absurd (bounded.bound_le l _ bound) (Nat.not_succ_le_self _)

end Bounded

/-- What is known of a routine whose instructions were added at these depths. -/
structure Tracks (r : OpenRoutine) (depths : List Nat) : Prop where
  length_eq : depths.length = r.code.size
  size_eq : r.entryDepth.size = r.placed.size
  bound_le : ∀ (l : Label) (p : Nat), r.placed[l.id]? = some (some p) → p ≤ r.code.size
  known : ∀ i ∈ r.code, ∀ l ∈ i.targets, l.id < r.placed.size
  depth_le : r.depth ≤ r.maxStack
  entry_le : ∀ n d : Nat, r.entryDepth[n]? = some (some d) → d ≤ r.maxStack
  fits : ∀ k i d, r.AddedAt depths k i d → i.pops ≤ d ∧ d ≤ r.maxStack
  first : (r.levels depths)[0]? = some 0
  untouched : r.code = #[] → r.reachable = true ∧ ∀ n d : Nat, r.entryDepth[n]? ≠ some (some d)
  falls : ∀ k i d, r.AddedAt depths k i d → i.endsBlock = false → ¬ r.Binds (k + 1) →
    (r.levels depths)[k + 1]? = some (i.depthAfter d)
  pending : ∀ k i d, r.AddedAt depths k i d → ∀ l ∈ i.targets, r.placed[l.id]? = some none →
    r.entryDepth[l.id]? = some (some (i.depthAfter d))
  branches : ∀ k i d, r.AddedAt depths k i d → ∀ l ∈ i.targets, ∀ p,
    r.placed[l.id]? = some (some p) → k < p → ¬ r.Crowded p →
      (r.levels depths)[p]? = some (i.depthAfter d)
  ended : r.reachable = false →
    (∃ i, r.code.back? = some i ∧ i.endsBlock = true) ∧ ¬ r.Binds r.code.size

namespace Tracks

variable {r r' : OpenRoutine} {depths : List Nat} {i j : Instr Label} {d e k p : Nat}

theorem bounded (tracks : r.Tracks depths) : r.Bounded := ⟨tracks.bound_le, tracks.ended⟩

theorem start (access : Access) (name : String) (sig : Signature) :
    (OpenRoutine.start access name sig).Tracks [] where
  length_eq := rfl
  size_eq := rfl
  bound_le _ _ h := nomatch h
  known _ h := nomatch h
  depth_le := Nat.le_refl 0
  entry_le _ _ h := nomatch h
  fits _ _ _ h := nomatch h.1
  first := rfl
  untouched _ := ⟨rfl, nofun⟩
  falls _ _ _ h := nomatch h.1
  pending _ _ _ h := nomatch h.1
  branches _ _ _ h := nomatch h.1
  ended h := nomatch h

theorem lt_length (h : r.AddedAt depths k i d) : k < depths.length :=
  (List.getElem?_eq_some_iff.mp h.2).1

theorem mem_code (h : r.AddedAt depths k i d) : i ∈ r.code := Array.mem_of_getElem? h.1

/-- A new label changes nothing that is known of the others. -/
theorem newLabel (tracks : r.Tracks depths) : r.newLabel.2.Tracks depths := by
  have placed_iff := r.placed_newLabel_iff
  have entry_iff (n d : Nat) :
      r.newLabel.2.entryDepth[n]? = some (some d) ↔ r.entryDepth[n]? = some (some d) := by
    change (r.entryDepth.push none)[n]? = _ ↔ _
    rw [Array.getElem?_push]
    split
    · rename_i same
      simp [same]
    · exact Iff.rfl
  have crowded_iff (p : Nat) : r.newLabel.2.Crowded p ↔ r.Crowded p :=
    exists_congr fun l => exists_congr fun m =>
      and_congr_right fun _ => and_congr (placed_iff l.id p) (placed_iff m.id p)
  refine
    { length_eq := tracks.length_eq
      size_eq := ?_
      bound_le := tracks.bounded.newLabel.bound_le
      known := fun i mem l target => ?_
      depth_le := tracks.depth_le
      entry_le := fun n d recorded => tracks.entry_le n d ((entry_iff n d).mp recorded)
      fits := tracks.fits
      first := tracks.first
      untouched := fun empty => ?_
      falls := fun k i d added plain free => ?_
      pending := fun k i d added l target unplaced => ?_
      branches := fun k i d added l target p bound forward single => ?_
      ended := tracks.bounded.newLabel.ended }
  · change (r.entryDepth.push none).size = (r.placed.push none).size
    rw [Array.size_push, Array.size_push, tracks.size_eq]
  · change l.id < (r.placed.push none).size
    rw [Array.size_push]
    exact Nat.lt_succ_of_lt (tracks.known i mem l target)
  · obtain ⟨reachable, none_recorded⟩ := tracks.untouched empty
    exact ⟨reachable, fun n d recorded => none_recorded n d ((entry_iff n d).mp recorded)⟩
  · exact tracks.falls k i d added plain fun binds => free ((r.binds_newLabel_iff _).mpr binds)
  · have lt := tracks.known i (mem_code added) l target
    change (r.placed.push none)[l.id]? = some none at unplaced
    rw [Array.getElem?_push, if_neg (Nat.ne_of_lt lt)] at unplaced
    exact (entry_iff _ _).mpr (tracks.pending k i d added l target unplaced)
  · exact tracks.branches k i d added l target p ((placed_iff l.id p).mp bound) forward
      fun crowded => single ((crowded_iff p).mpr crowded)

theorem depth_atLabel_le (tracks : r.Tracks depths) (l : Label) :
    (r.atLabel l).depth ≤ r.maxStack := by
  rw [r.depth_atLabel l]
  cases recorded : r.entryDepth[l.id]?.join with
  | some d => exact tracks.entry_le l.id d (Option.join_eq_some_iff.mp recorded)
  | none =>
      change (if r.reachable then r.depth else 0) ≤ r.maxStack
      split
      · exact tracks.depth_le
      · exact Nat.zero_le _

/-- Where nothing was added yet, no branch can have brought another depth. -/
theorem depth_atLabel_of_nil (tracks : r.Tracks []) (l : Label) : (r.atLabel l).depth = 0 := by
  have empty : r.code = #[] := Array.size_eq_zero_iff.mp tracks.length_eq.symm
  obtain ⟨reachable, none_recorded⟩ := tracks.untouched empty
  have absent : r.entryDepth[l.id]?.join = none := by
    cases recorded : r.entryDepth[l.id]?.join with
    | none => rfl
    | some d => exact absurd (Option.join_eq_some_iff.mp recorded) (none_recorded l.id d)
  have zero : some r.depth = some 0 := tracks.first
  rw [r.depth_atLabel l, absent, reachable]
  exact Option.some.inj zero

/-- A label that is placed fixes the depth at hand to what branches brought to it. -/
theorem atLabel (tracks : r.Tracks depths) (l : Label) (unplaced : r.placed[l.id]? = some none) :
    (r.atLabel l).Tracks depths := by
  have placed_eq := r.placed_atLabel l unplaced
  have here := r.placed_atLabel_self l unplaced
  have kept (m : Label) (p : Nat) := r.placed_atLabel_of_bound l m p unplaced
  have single_of (p : Nat) (single : ¬ (r.atLabel l).Crowded p) : ¬ r.Crowded p :=
    fun ⟨m, n, distinct, first, second⟩ => single ⟨m, n, distinct, kept m p first, kept n p second⟩
  refine
    { length_eq := tracks.length_eq
      size_eq := ?_
      bound_le := (tracks.bounded.atLabel l unplaced).bound_le
      known := fun i mem m target => ?_
      depth_le := tracks.depth_atLabel_le l
      entry_le := tracks.entry_le
      fits := tracks.fits
      first := ?_
      untouched := fun empty => ⟨rfl, (tracks.untouched empty).2⟩
      falls := fun k i d added plain free => ?_
      pending := fun k i d added m target open_ => ?_
      branches := fun k i d added m target p bound forward single => ?_
      ended := nofun }
  · change r.entryDepth.size = (r.placed.setIfInBounds l.id _).size
    rw [Array.size_setIfInBounds, tracks.size_eq]
  · change m.id < (r.placed.setIfInBounds l.id _).size
    rw [Array.size_setIfInBounds]
    exact tracks.known i mem m target
  · cases depths with
    | cons d depths => exact tracks.first
    | nil => exact congrArg some (tracks.depth_atLabel_of_nil l)
  · have lt := lt_length added
    have before_end : k + 1 < depths.length := by
      refine Nat.lt_of_le_of_ne lt fun same => free ⟨l, ?_⟩
      rw [here, same, tracks.length_eq]
    rw [r.levels_eq_of_lt (r.atLabel l) before_end]
    exact tracks.falls k i d added plain fun ⟨m, bound⟩ => free ⟨m, kept m _ bound⟩
  · rw [placed_eq] at open_
    split at open_
    · cases open_
    · exact tracks.pending k i d added m target open_
  · rw [placed_eq] at bound
    split at bound
    · rename_i same
      cases bound
      have brought := tracks.pending k i d added m target (by rw [← same]; exact unplaced)
      rw [← tracks.length_eq, levels_length, depth_atLabel, same, brought]
      rfl
    · rename_i other
      have before_end : p < depths.length := by
        rw [tracks.length_eq]
        refine Nat.lt_of_le_of_ne (tracks.bound_le m p bound) fun same => single ?_
        refine ⟨m, l, fun eq => other (by rw [eq]), kept m p bound, ?_⟩
        rw [here, same]
      rw [r.levels_eq_of_lt (r.atLabel l) before_end]
      exact tracks.branches k i d added m target p bound forward (single_of p single)

/-- An instruction that is added was added last, or it was there before. -/
theorem addedAt_cases (tracks : r.Tracks depths) (adds : r.Adds i r')
    (h : r'.AddedAt (depths ++ [r.depth]) k j d) :
    k = r.code.size ∧ j = i ∧ d = r.depth ∨ r.AddedAt depths k j d := by
  obtain ⟨found, depth⟩ := h
  rw [adds.code_eq, Array.getElem?_push] at found
  split at found
  · rename_i last
    cases found
    rw [last, ← tracks.length_eq] at depth
    cases (r.levels_length depths).symm.trans depth
    exact .inl ⟨last, rfl, rfl⟩
  · have lt : k < depths.length := by
      rw [tracks.length_eq]
      exact (Array.getElem?_eq_some_iff.mp found).1
    rw [List.getElem?_append_left lt] at depth
    exact .inr ⟨found, depth⟩

/-- One instruction more is added at the depth at hand. -/
theorem adds (tracks : r.Tracks depths) (adds : r.Adds i r') :
    r'.Tracks (depths ++ [r.depth]) := by
  have binds_iff (p : Nat) : r'.Binds p ↔ r.Binds p := by rw [Binds, adds.placed_eq]; rfl
  have levels_eq {p : Nat} (le : p ≤ depths.length) :
      (r'.levels (depths ++ [r.depth]))[p]? = (r.levels depths)[p]? :=
    List.getElem?_append_left (by simpa using Nat.lt_succ_of_le le)
  have after_le := adds.room tracks.depth_le
  refine
    { length_eq := ?_
      size_eq := ?_
      bound_le := (tracks.bounded.adds adds).bound_le
      known := fun j mem l target => ?_
      depth_le := ?_
      entry_le := fun n d recorded => ?_
      fits := fun k j d added => ?_
      first := ?_
      untouched := fun empty => ?_
      falls := fun k j d added plain free => ?_
      pending := fun k j d added l target open_ => ?_
      branches := fun k j d added l target p bound forward single => ?_
      ended := (tracks.bounded.adds adds).ended }
  · rw [adds.code_eq, Array.size_push, List.length_append, tracks.length_eq]
    rfl
  · rw [adds.size_eq, adds.placed_eq, tracks.size_eq]
  · rw [adds.placed_eq]
    rw [adds.code_eq] at mem
    obtain old | rfl := Array.mem_push.mp mem
    · exact tracks.known j old l target
    · rw [← tracks.size_eq, ← adds.size_eq]
      exact (Array.getElem?_eq_some_iff.mp (adds.targets l target)).1
  · rw [adds.depth_eq]
    split
    · exact Nat.zero_le _
    · exact after_le
  · obtain old | ⟨rfl, -⟩ := adds.only n d recorded
    · exact Nat.le_trans (tracks.entry_le n d old) adds.maxStack_le
    · exact after_le
  · obtain ⟨-, rfl, rfl⟩ | old := addedAt_cases tracks adds added
    · exact ⟨adds.pops_le, Nat.le_trans tracks.depth_le adds.maxStack_le⟩
    · obtain ⟨pops_le, depth_le⟩ := tracks.fits k j d old
      exact ⟨pops_le, Nat.le_trans depth_le adds.maxStack_le⟩
  · rw [levels_eq (Nat.zero_le _)]
    exact tracks.first
  · rw [adds.code_eq] at empty
    exact absurd empty Array.push_ne_empty
  · obtain ⟨last, rfl, rfl⟩ | old := addedAt_cases tracks adds added
    · have after : r'.depth = j.depthAfter r.depth := by
        rw [adds.depth_eq, plain]
        rfl
      rw [← after, last, ← tracks.length_eq, ← r'.levels_length, List.length_append]
      rfl
    · rw [levels_eq (lt_length old)]
      exact tracks.falls k j d old plain fun binds => free ((binds_iff (k + 1)).mpr binds)
  · rw [adds.placed_eq] at open_
    obtain ⟨-, rfl, rfl⟩ | old := addedAt_cases tracks adds added
    · exact adds.targets l target
    · exact adds.kept l.id _ (tracks.pending k j d old l target open_)
  · rw [adds.placed_eq] at bound
    have le := tracks.bound_le l p bound
    obtain ⟨rfl, -, -⟩ | old := addedAt_cases tracks adds added
    · exact absurd forward (Nat.not_lt.mpr le)
    · rw [← tracks.length_eq] at le
      rw [levels_eq le]
      refine tracks.branches k j d old l target p bound forward fun crowded => single ?_
      rw [Crowded, adds.placed_eq]
      exact crowded

end Tracks

end OpenRoutine

end TokenDispatch
