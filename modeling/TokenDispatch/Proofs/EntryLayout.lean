import TokenDispatch.Proofs.StackDepth
import TokenDispatch.Proofs.StackUse
import TokenDispatch.Proofs.TokenSwitch

/-!
The entry point as data: loads of the operands, one switch on the token, and a branch for each
routine and for the fallback. Its labels are gone once it is finished, so that the switch leads from
the token of a position straight to the branch of that position; and it is always accepted.
-/

namespace TokenDispatch

open Script

variable {τ ρ L : Type}

/-! Labels and branches. -/

/-- Cases with labels that are numbered in the order of the keys. -/
def numbered : Nat → List Int32 → List (Int32 × Label)
  | _, [] => []
  | id, key :: keys => (key, ⟨id⟩) :: numbered (id + 1) keys

theorem numbered_keys (id : Nat) (keys : List Int32) : (numbered id keys).map (·.1) = keys := by
  induction keys generalizing id with
  | nil => rfl
  | cons key keys ih => rw [numbered, List.map_cons, ih]

theorem numbered_getElem? (id : Nat) (keys : List Int32) (k : Nat) :
    (numbered id keys)[k]? = keys[k]?.map fun key => (key, ⟨id + k⟩) := by
  induction keys generalizing id k with
  | nil => rfl
  | cons key keys ih =>
      cases k with
      | zero => rfl
      | succ k =>
          rw [numbered, List.getElem?_cons_succ, ih, List.getElem?_cons_succ, Nat.add_assoc,
            Nat.add_comm 1]

theorem numbered_labels (id : Nat) (keys : List Int32) :
    (numbered id keys).map (·.2) = (List.range' id keys.length).map Label.mk := by
  induction keys generalizing id with
  | nil => rfl
  | cons key keys ih => rw [numbered, List.map_cons, ih, List.length_cons, List.range'_succ,
      List.map_cons]

/-- The call of a routine with the signature of all routines. -/
def branchSite (kind : CallKind) (unit routine : String) : CallSite :=
  { kind, owner := unit, name := routine, sig := .dispatch }

def branchCode (kind : CallKind) (unit routine : String) : List (Instr τ) :=
  [.call (branchSite kind unit routine), .ret]

namespace OpenRoutine

/-- The routine with new labels. -/
def withLabels (r : OpenRoutine) : Nat → OpenRoutine
  | 0 => r
  | count + 1 => r.newLabel.2.withLabels count

theorem withLabels_eq (r : OpenRoutine) (count : Nat) :
    r.withLabels count = { r with
      placed := r.placed ++ Array.replicate count none
      entryDepth := r.entryDepth ++ Array.replicate count none } := by
  have push_append (xs : Array (Option Nat)) (count : Nat) :
      xs.push none ++ Array.replicate count none = xs ++ Array.replicate (count + 1) none := by
    apply Array.ext'
    simp [List.replicate_succ]
  induction count generalizing r with
  | zero => simp [withLabels]
  | succ count ih =>
      rw [withLabels, ih, OpenRoutine.newLabel]
      simp only [push_append]

def afterBranch (r : OpenRoutine) (label : Label) (kind : CallKind) (unit routine : String) :
    OpenRoutine :=
  (r.atLabel label).afterAll (branchCode kind unit routine)

end OpenRoutine

open Assembler OpenRoutine in
theorem mapM_fresh_iff (keys : List Int32) (cases : List (Int32 × Label)) (a a' : Assembler)
    (r : OpenRoutine) (current : a.current = some r) :
    Succeeds (keys.mapM fun key => Prod.mk key <$> (Emitter.fresh : Emit Assembler Label))
        a cases a' ↔
      cases = numbered r.placed.size keys ∧
        a' = { a with current := some (r.withLabels keys.length) } := by
  induction keys generalizing a r cases with
  | nil =>
      have same : a = { a with current := some r } := by rw [← current]
      rw [List.mapM_nil, Succeeds.pure_iff, numbered, List.length_nil, withLabels, ← same,
        eq_comm, eq_comm (a := a)]
  | cons key keys ih =>
      have size_eq : r.newLabel.2.placed.size = r.placed.size + 1 := Array.size_push _
      simp only [List.mapM_cons, Succeeds.bind_iff, Succeeds.map_iff, Succeeds.pure_iff]
      constructor
      · intro h
        obtain ⟨_, b, ⟨label, first, rfl⟩, others, c, rest, rfl, rfl⟩ := h
        obtain ⟨rfl, rfl⟩ := (fresh_iff a b label r current).mp first
        obtain ⟨rfl, rfl⟩ := (ih others _ r.newLabel.2 rfl).mp rest
        rw [size_eq]
        exact ⟨rfl, rfl⟩
      · intro h
        obtain ⟨rfl, rfl⟩ := h
        refine ⟨_, _, ⟨_, (fresh_iff a _ _ r current).mpr ⟨rfl, rfl⟩, rfl⟩, _, _,
          (ih _ _ r.newLabel.2 rfl).mpr ⟨rfl, rfl⟩, ?_, rfl⟩
        rw [size_eq]
        rfl

open Assembler OpenRoutine in
theorem follow_branch_iff (label : Label) (kind : CallKind) (unit routine : String)
    (a a' : Assembler) (r : OpenRoutine) (current : a.current = some r) :
    Succeeds (follow (branch label kind unit routine)) a () a' ↔
      (r.placed[label.id]? = some none ∧
        (r.atLabel label).AcceptsAll (branchCode kind unit routine)) ∧
      a' = { a with current := some (r.afterBranch label kind unit routine) } := by
  have rest (b : Assembler) (open_eq : b.current = some (r.atLabel label)) :=
    follow_plain_iff [.invoke kind unit routine .dispatch, .ret .reference]
      (by simp [Directive.instr?]) b a' (r.atLabel label) open_eq
  rw [branch, follow_cons_iff]
  constructor
  · intro h
    obtain ⟨b, first, run⟩ := h
    obtain ⟨_, r', open_eq, extends_, rfl⟩ := (perform_iff_extends _ rfl a b ()).mp first
    cases current.symm.trans open_eq
    cases extends_ with
    | instruct instr => cases instr
    | placeLabel unplaced =>
        obtain ⟨accepts, rfl⟩ := (rest _ rfl).mp run
        exact ⟨⟨unplaced, accepts⟩, rfl⟩
  · intro h
    obtain ⟨⟨unplaced, accepts⟩, rfl⟩ := h
    have first := (perform_iff_extends (.placeLabel label) rfl a _ ()).mpr
      ⟨r, _, current, .placeLabel unplaced, rfl⟩
    exact ⟨_, first, (rest _ rfl).mpr ⟨accepts, rfl⟩⟩

namespace OpenRoutine

/-- A branch that is entered with the operands of a routine takes no more of the stack. -/
theorem afterBranch_maxStack (r : OpenRoutine) (label : Label) (kind : CallKind)
    (unit routine : String) (instance_ : kind.hasReceiver = true)
    (entered : r.entryDepth[label.id]? = some (some 4)) (room : 1 ≤ r.maxStack) :
    (r.afterBranch label kind unit routine).maxStack = r.maxStack := by
  have depth_eq : (r.atLabel label).depth = 4 := by
    rw [atLabel, entered]
    rfl
  have pops : (.call (branchSite kind unit routine) : Instr Label).pops = 4 := by
    rw [Instr.pops, branchSite, CallSite.operands, instance_]
    rfl
  change max (max r.maxStack ((r.atLabel label).depth - _ + 1))
    ((r.atLabel label).depth - _ + 1 - 1 + 0) = r.maxStack
  rw [depth_eq, pops]
  omega

end OpenRoutine

open Assembler OpenRoutine in
/-- The branches of the routines, in order, and the places their labels get. -/
theorem follow_branches (unit : String) (keys : List Int32) (routines : List String) (id : Nat)
    (same : keys.length = routines.length) (a a' : Assembler) (r : OpenRoutine)
    (current : a.current = some r)
    (h : Succeeds (follow (((numbered id keys).zip routines).flatMap fun ((_, label), routine) =>
      branch label .special unit routine)) a () a') :
    ∃ r', a' = { a with current := some r' } ∧ r.Alike r' ∧ r'.entryDepth = r.entryDepth ∧
      r'.code.toList = r.code.toList ++ routines.flatMap (branchCode .special unit) ∧
      (∀ k, r'.placed[k]? =
        if id ≤ k ∧ k < id + keys.length then some (some (r.code.size + 2 * (k - id)))
        else r.placed[k]?) ∧
      r'.maxLocals = r.maxLocals ∧
      (1 ≤ r.maxStack → (∀ k, id ≤ k → k < id + keys.length →
        r.entryDepth[k]? = some (some 4)) → r'.maxStack = r.maxStack) := by
  induction keys generalizing routines id a r with
  | nil =>
      cases routines with
      | cons _ _ => cases same
      | nil =>
          obtain ⟨-, rfl⟩ := (Succeeds.pure_iff _ _ _ _).mp h
          refine ⟨r, by rw [← current], .refl r, rfl, by simp, fun k => ?_, rfl, fun _ _ => rfl⟩
          rw [if_neg (by simp only [List.length_nil]; omega)]
  | cons key keys ih =>
      cases routines with
      | nil => cases same
      | cons routine routines =>
          obtain ⟨b, first, rest⟩ := (follow_append_iff _ _ _ _).mp h
          obtain ⟨⟨unplaced, -⟩, rfl⟩ := (follow_branch_iff _ _ _ _ a b r current).mp first
          obtain ⟨r', rfl, alike, depths, code, placed, locals, stack⟩ :=
            ih routines (id + 1) (Nat.succ.inj same) _ _ rfl rest
          have bound : id < r.placed.size := (Array.getElem?_eq_some_iff.mp unplaced).1
          have begun : r.Alike (r.afterBranch ⟨id⟩ .special unit routine) :=
            Alike.trans (s := r.atLabel ⟨id⟩) ⟨rfl, rfl, rfl⟩ (alike_afterAll _ _)
          have begun_code : (r.afterBranch ⟨id⟩ .special unit routine).code.toList =
              r.code.toList ++ branchCode .special unit routine := afterAll_code _ _
          have begun_placed : (r.afterBranch ⟨id⟩ .special unit routine).placed =
              r.placed.setIfInBounds id (some r.code.size) := afterAll_placed _ _
          have begun_size : (r.afterBranch ⟨id⟩ .special unit routine).code.size =
              r.code.size + 2 := by
            have := congrArg List.length begun_code
            simpa [branchCode] using this
          refine ⟨r', rfl, begun.trans alike, depths, ?_, fun k => ?_, locals,
            fun room entered => ?_⟩
          · rw [code, begun_code, List.flatMap_cons, List.append_assoc]
          · rw [placed k, begun_size, begun_placed, Array.getElem?_setIfInBounds]
            simp only [List.length_cons]
            by_cases here : id = k
            · subst here
              rw [if_neg (by omega), if_pos rfl, if_pos bound, if_pos (by omega)]
              simp
            · rw [if_neg here]
              by_cases later : id + 1 ≤ k ∧ k < id + 1 + keys.length
              · rw [if_pos later, if_pos (by omega),
                  show r.code.size + 2 + 2 * (k - (id + 1)) = r.code.size + 2 * (k - id) by omega]
              · rw [if_neg later, if_neg (by omega)]
          · rw [List.length_cons] at entered
            have begun_stack := r.afterBranch_maxStack ⟨id⟩ .special unit routine rfl
              (entered id (Nat.le_refl id) (by omega)) room
            rw [stack (by rw [begun_stack]; exact room)
              fun k le lt => entered k (by omega) (by omega), begun_stack]

namespace OpenRoutine

/-- A branch is accepted where the operands of a routine are brought to its label. -/
theorem acceptsAll_branch (r : OpenRoutine) (label : Label) (kind : CallKind)
    (unit routine : String) (instance_ : kind.hasReceiver = true) (sig_eq : r.sig = .dispatch)
    (entered : r.entryDepth[label.id]? = some (some 4)) :
    (r.atLabel label).AcceptsAll (branchCode kind unit routine) := by
  have operands : (branchSite kind unit routine).operands = 4 := by
    rw [branchSite, CallSite.operands, instance_]
    rfl
  have depth_eq : (r.atLabel label).depth = 4 := by
    rw [atLabel, entered]
    rfl
  have use := StackUse.one (.call (branchSite kind unit routine) : Instr Label) 4
    (Nat.le_of_eq operands)
  have called := afterAll_eq use (by simp [Instr.endsBlock]) (r.atLabel label) rfl depth_eq
  have leaves : (.call (branchSite kind unit routine) : Instr Label).depthAfter 4 = 1 := by
    rw [Instr.depthAfter, Instr.pops, operands]
    rfl
  rw [leaves] at use called
  change (r.atLabel label).AcceptsAll ([_] ++ [.ret])
  rw [acceptsAll_append, called]
  refine ⟨(acceptsAll_iff use (by simp [Instr.endsBlock]) _ rfl depth_eq).mpr ⟨?_, by decide⟩, ?_⟩
  · intro i mem
    cases List.mem_singleton.mp mem
    exact Nat.le_trans (Nat.le_of_eq operands) (by decide)
  · have returns : r.sig.ret.isReference = true := by
      rw [sig_eq]
      rfl
    exact ⟨⟨returns, rfl, Nat.le_refl 1, Nat.zero_le _⟩, trivial⟩

end OpenRoutine

open Assembler OpenRoutine in
/-- The branches are accepted, one after another. -/
theorem follow_branches_accepted (unit : String) (keys : List Int32) (routines : List String)
    (id : Nat) (a : Assembler) (r : OpenRoutine) (current : a.current = some r)
    (sig_eq : r.sig = .dispatch)
    (open_ : ∀ k, id ≤ k → k < id + keys.length →
      r.placed[k]? = some none ∧ r.entryDepth[k]? = some (some 4)) :
    ∃ a', Succeeds (follow (((numbered id keys).zip routines).flatMap fun ((_, label), routine) =>
      branch label .special unit routine)) a () a' := by
  induction keys generalizing routines id a r with
  | nil => exact ⟨a, (Succeeds.pure_iff _ _ _ _).mpr ⟨rfl, rfl⟩⟩
  | cons key keys ih =>
      cases routines with
      | nil => exact ⟨a, (Succeeds.pure_iff _ _ _ _).mpr ⟨rfl, rfl⟩⟩
      | cons routine routines =>
          rw [List.length_cons] at open_
          obtain ⟨unplaced, entered⟩ := open_ id (Nat.le_refl id) (by omega)
          have accepts := r.acceptsAll_branch ⟨id⟩ .special unit routine rfl sig_eq entered
          have first := (follow_branch_iff ⟨id⟩ .special unit routine a _ r current).mpr
            ⟨⟨unplaced, accepts⟩, rfl⟩
          have placed : (r.afterBranch ⟨id⟩ .special unit routine).placed =
              r.placed.setIfInBounds id (some r.code.size) := afterAll_placed _ _
          have still_open : ∀ k, id + 1 ≤ k → k < id + 1 + keys.length →
              (r.afterBranch ⟨id⟩ .special unit routine).placed[k]? = some none ∧
                r.entryDepth[k]? = some (some 4) := by
            intro k le lt
            rw [placed, Array.getElem?_setIfInBounds_ne (by omega)]
            exact open_ k (by omega) (by omega)
          obtain ⟨a', rest⟩ := ih routines (id + 1)
            { a with current := some (r.afterBranch ⟨id⟩ .special unit routine) } _ rfl sig_eq
            still_open
          exact ⟨a', (follow_append_iff _ _ _ _).mpr ⟨_, first, rest⟩⟩

/-! The entry point. -/

/-- Where the branch of a position starts; that of the fallback comes after the last. -/
def branchStart (position : Nat) : Nat := 6 + 2 * position

def entryCases (count : Nat) : List (Int32 × Nat) :=
  (List.range count).map fun position => (positionKey position, branchStart position)

theorem entryCases_keys (count : Nat) : (entryCases count).map (·.1) = positionKeys count := by
  rw [entryCases, List.map_map]
  rfl

def entrySwitch (form : SwitchForm) (count : Nat) : Instr Nat :=
  positionSwitch form (branchStart count) (entryCases count)

def entryLoads : List (Instr τ) :=
  [.loadLocal Slot.self, .loadLocal Slot.token, .loadLocal Slot.receiver,
    .loadLocal Slot.arguments, .loadLocal Slot.token]

def entryCode (form : SwitchForm) (unit : String) (routines : List String) : List (Instr Nat) :=
  entryLoads ++ [entrySwitch form routines.length] ++
    routines.flatMap (branchCode .special unit) ++
    branchCode .virtual unit RoutineName.fallback

/-- Labels that are placed branch by branch turn a switch over them into the switch of the entry. -/
theorem positionSwitch_resolved (form : SwitchForm) (count : Nat) (position : Label → Nat)
    (default : position ⟨0⟩ = branchStart count)
    (cases : ∀ k, k < count → position ⟨1 + k⟩ = branchStart k) :
    (positionSwitch form ⟨0⟩ (numbered 1 (positionKeys count))).map position =
      entrySwitch form count := by
  rw [positionSwitch_map, default, entrySwitch]
  congr 1
  refine List.ext_getElem? fun k => ?_
  rw [List.getElem?_map, numbered_getElem?, entryCases, positionKeys, List.getElem?_map,
    List.getElem?_map]
  by_cases low : k < count
  · simp [List.getElem?_range low, cases k low]
  · simp [List.getElem?_eq_none (Nat.le_of_not_lt (by simpa using low) :
      (List.range count).length ≤ k)]

/-- The labels of the entry point: the default is the first, those of the branches follow. -/
def entryLabels (count : Nat) : List Label :=
  ⟨0⟩ :: (numbered 1 (positionKeys count)).map (·.2)

theorem mem_entryLabels_iff (count : Nat) (l : Label) :
    l ∈ entryLabels count ↔ l.id < count + 1 := by
  have labels : entryLabels count = (List.range' 0 (count + 1)).map Label.mk := by
    rw [entryLabels, numbered_labels, positionKeys_length, List.range'_succ, List.map_cons]
  rw [labels, List.mem_map]
  constructor
  · intro h
    obtain ⟨id, mem, rfl⟩ := h
    simpa using mem
  · intro lt
    exact ⟨l.id, by simpa using lt, rfl⟩

/-- The entry point once its operands are loaded. -/
def entryOpened : OpenRoutine :=
  (OpenRoutine.start .exported RoutineName.entry .dispatch).afterAll entryLoads

/-- The entry point once its switch is written. -/
def entrySwitched (form : SwitchForm) (count : Nat) : OpenRoutine :=
  (entryOpened.withLabels (count + 1)).afterSwitch
    (positionSwitch form ⟨0⟩ (numbered 1 (positionKeys count))) (entryLabels count)

theorem entryLoads_use : StackUse (entryLoads : List (Instr τ)) 0 5 5 := by
  have last : StackUse [(.loadLocal Slot.token : Instr τ)] 4 5 5 := .one _ 4 (Nat.zero_le 4)
  have operands := ((last.load Slot.arguments (by decide)).load Slot.receiver (by decide)).load
    Slot.token (by decide)
  exact operands.load Slot.self (by decide)

theorem acceptsAll_entryLoads :
    (OpenRoutine.start .exported RoutineName.entry .dispatch).AcceptsAll entryLoads := by
  refine (OpenRoutine.acceptsAll_iff entryLoads_use ?_ _ rfl rfl).mpr ⟨?_, by decide⟩
  · simp [entryLoads, Instr.endsBlock]
  · have locals_eq : (OpenRoutine.start .exported RoutineName.entry .dispatch).maxLocals = 4 := rfl
    simp [entryLoads, OpenRoutine.Permits, locals_eq, Slot.self, Slot.token, Slot.receiver,
      Slot.arguments]

namespace OpenRoutine

theorem entrySwitched_alike (form : SwitchForm) (count : Nat) :
    (start .exported RoutineName.entry .dispatch).Alike (entrySwitched form count) := by
  rw [entrySwitched, withLabels_eq]
  exact ⟨rfl, rfl, rfl⟩

theorem entrySwitched_code (form : SwitchForm) (count : Nat) :
    (entrySwitched form count).code.toList =
      entryLoads ++ [positionSwitch form ⟨0⟩ (numbered 1 (positionKeys count))] := by
  rw [entrySwitched, withLabels_eq]
  rfl

/-- The token is loaded above the operands of a routine. -/
theorem entrySwitched_frame (form : SwitchForm) (count : Nat) :
    (entrySwitched form count).maxStack = 5 ∧ (entrySwitched form count).maxLocals = 4 := by
  rw [entrySwitched, withLabels_eq]
  exact ⟨rfl, rfl⟩

/-- The labels are not placed yet, and each may be entered with the operands of a routine. -/
theorem entryOpened_admits (count k : Nat) (lt : k < count + 1) :
    (entryOpened.withLabels (count + 1)).placed[k]? = some none ∧
      (entryOpened.withLabels (count + 1)).entryDepth[k]? = some none := by
  have fresh : (#[] ++ Array.replicate (count + 1) none : Array (Option Nat))[k]? = some none := by
    rw [Array.getElem?_append_right (Nat.zero_le k), Array.getElem?_replicate]
    exact if_pos lt
  rw [withLabels_eq]
  exact ⟨fresh, fresh⟩

theorem entrySwitched_label (form : SwitchForm) (count k : Nat) (lt : k < count + 1) :
    (entrySwitched form count).placed[k]? = some none ∧
      (entrySwitched form count).entryDepth[k]? = some (some 4) := by
  refine ⟨(entryOpened_admits count k lt).1, ?_⟩
  have bound : ∀ l ∈ entryLabels count,
      l.id < (entryOpened.withLabels (count + 1)).entryDepth.size := by
    intro l mem
    have known := (entryOpened_admits count l.id ((mem_entryLabels_iff count l).mp mem)).2
    exact (Array.getElem?_eq_some_iff.mp known).1
  have depth_eq : (entryOpened.withLabels (count + 1)).depth - 1 = 4 := by
    rw [withLabels_eq]
    rfl
  have entered := getElem?_enter (entryOpened.withLabels (count + 1)) 4 _ bound k
  rw [if_pos (List.mem_map.mpr ⟨⟨k⟩, (mem_entryLabels_iff count _).mpr lt, rfl⟩)] at entered
  rw [entrySwitched, afterSwitch, depth_eq]
  exact entered

end OpenRoutine

open Assembler OpenRoutine in
theorem follow_entryOpening_iff (a b : Assembler) :
    Succeeds (follow entryOpening) a () b ↔
      (a.header ≠ none ∧ a.current = none) ∧ b = { a with current := some entryOpened } := by
  have loads_iff (a : Assembler)
      (open_eq : a.current = some (start .exported RoutineName.entry .dispatch)) :=
    follow_plain_iff [.loadLocal Slot.self, .loadLocal Slot.token, .loadLocal Slot.receiver,
      .loadLocal Slot.arguments, .loadLocal Slot.token] (by simp [Directive.instr?]) a b _ open_eq
  rw [entryOpening, follow_cons_iff]
  constructor
  · intro h
    obtain ⟨_, first, loads⟩ := h
    obtain ⟨⟨begun, closed, -⟩, rfl⟩ := (beginRoutine_iff _ _ _ _ _ _).mp first
    exact ⟨⟨begun, closed⟩, ((loads_iff _ rfl).mp loads).2⟩
  · intro h
    obtain ⟨⟨begun, closed⟩, rfl⟩ := h
    exact ⟨_, (beginRoutine_iff _ _ _ _ _ ()).mpr ⟨⟨begun, closed, by decide⟩, rfl⟩,
      (loads_iff _ rfl).mpr ⟨acceptsAll_entryLoads, rfl⟩⟩

open Assembler OpenRoutine in
/-- The switch is accepted whenever the labels are new. -/
theorem perform_entrySwitch_iff (form : SwitchForm) (count : Nat) (low : count ≤ Token.limit)
    (a e : Assembler) (current : a.current = some (entryOpened.withLabels (count + 1))) :
    Succeeds (perform (tokenSwitch form ⟨0⟩ (numbered 1 (positionKeys count)))) a () e ↔
      e = { a with current := some (entrySwitched form count) } := by
  have state : (entryOpened.withLabels (count + 1)).reachable = true ∧
      (entryOpened.withLabels (count + 1)).depth = 5 := by
    rw [withLabels_eq]
    exact ⟨rfl, rfl⟩
  have admits : ∀ l ∈ entryLabels count, (entryOpened.withLabels (count + 1)).Admits 4 l := by
    intro l mem
    have new := (entryOpened_admits count l.id ((mem_entryLabels_iff count l).mp mem)).2
    exact ⟨none, new, .inl rfl⟩
  rw [perform_tokenSwitch_iff form ⟨0⟩ _ count low (numbered_keys 1 (positionKeys count)) a e _
    current, state.1, state.2]
  exact ⟨fun h => h.2, fun h => ⟨⟨rfl, by decide, admits⟩, h⟩⟩

open Assembler OpenRoutine in
/-- The entry point can be written up to its switch wherever a routine can be begun. -/
theorem entry_switched_iff (form : SwitchForm) (count : Nat) (low : count ≤ Token.limit)
    (a e : Assembler) (default : Label) (cases : List (Int32 × Label)) :
    (∃ b c d, Succeeds (follow entryOpening) a () b ∧
      Succeeds (Emitter.fresh : Emit Assembler Label) b default c ∧
      Succeeds ((positionKeys count).mapM fun key =>
        Prod.mk key <$> (Emitter.fresh : Emit Assembler Label)) c cases d ∧
      Succeeds (perform (tokenSwitch form default cases)) d () e) ↔
    (a.header ≠ none ∧ a.current = none) ∧ default = ⟨0⟩ ∧
      cases = numbered 1 (positionKeys count) ∧
      e = { a with current := some (entrySwitched form count) } := by
  have labelled : entryOpened.newLabel.2.withLabels (positionKeys count).length =
      entryOpened.withLabels (count + 1) := by
    rw [positionKeys_length]
    rfl
  constructor
  · intro h
    obtain ⟨b, c, d, opening, first, others, switch⟩ := h
    obtain ⟨begun, rfl⟩ := (follow_entryOpening_iff a b).mp opening
    obtain ⟨rfl, rfl⟩ := (fresh_iff _ c default entryOpened rfl).mp first
    obtain ⟨rfl, rfl⟩ := (mapM_fresh_iff _ cases _ d entryOpened.newLabel.2 rfl).mp others
    rw [labelled] at switch
    have switched := (perform_entrySwitch_iff form count low
      { a with current := some (entryOpened.withLabels (count + 1)) } e rfl).mp switch
    exact ⟨begun, rfl, rfl, switched⟩
  · intro h
    obtain ⟨begun, rfl, rfl, rfl⟩ := h
    have first := (fresh_iff { a with current := some entryOpened } _ ⟨0⟩ entryOpened rfl).mpr
      ⟨rfl, rfl⟩
    have others := (mapM_fresh_iff (positionKeys count) (numbered 1 (positionKeys count))
      { a with current := some entryOpened.newLabel.2 } _ _ rfl).mpr ⟨rfl, rfl⟩
    rw [labelled] at others
    exact ⟨_, _, _, (follow_entryOpening_iff a _).mpr ⟨begun, rfl⟩, first, others,
      (perform_entrySwitch_iff form count low _ _ rfl).mpr rfl⟩

open Assembler OpenRoutine in
/-- What is open once the branches of the routines are written. -/
theorem entry_branched (form : SwitchForm) (unit : String) (routines : List String)
    (a a' : Assembler) (current : a.current = some (entrySwitched form routines.length))
    (h : Succeeds (follow (((numbered 1 (positionKeys routines.length)).zip routines).flatMap
      fun ((_, label), routine) => branch label .special unit routine)) a () a') :
    ∃ t, a' = { a with current := some t } ∧
      (start .exported RoutineName.entry .dispatch).Alike t ∧
      t.code.toList = entryLoads ++
        [positionSwitch form ⟨0⟩ (numbered 1 (positionKeys routines.length))] ++
        routines.flatMap (branchCode .special unit) ∧
      t.code.size = branchStart routines.length ∧
      (t.placed[0]? = some none ∧ t.entryDepth[0]? = some (some 4)) ∧
      (∀ k < routines.length, t.placed[1 + k]? = some (some (branchStart k))) ∧
      t.maxStack = 5 ∧ t.maxLocals = 4 := by
  obtain ⟨t, rfl, alike, depths, code, placed, locals, stack⟩ :=
    follow_branches unit _ routines 1 (positionKeys_length _) a a' _ current h
  rw [positionKeys_length] at placed stack
  rw [entrySwitched_code] at code
  obtain ⟨opened_stack, opened_locals⟩ := entrySwitched_frame form routines.length
  have size_eq : (entrySwitched form routines.length).code.size = 6 :=
    congrArg List.length (entrySwitched_code form routines.length)
  refine ⟨t, rfl, (entrySwitched_alike form _).trans alike, code, ?_, ?_, fun k lt => ?_, ?_,
    locals.trans opened_locals⟩
  · have length := congrArg List.length code
    simp only [Array.length_toList, List.length_append, List.length_flatMap, branchCode,
      List.length_cons, List.length_nil, List.map_const', List.sum_replicate_nat,
      entryLoads] at length
    rw [length, branchStart, Nat.mul_comm]
  · rw [placed 0, depths, if_neg (by omega)]
    exact entrySwitched_label form _ 0 (Nat.zero_lt_succ _)
  · rw [placed (1 + k), if_pos ⟨Nat.le_add_right 1 k, by omega⟩, size_eq,
      Nat.add_sub_cancel_left, branchStart]
  · refine (stack (by rw [opened_stack]; decide) fun k _ lt => ?_).trans opened_stack
    exact (entrySwitched_label form _ k (by omega)).2

/-- The branches of the entry point, that of the fallback last. -/
def entryArms (unit : String) (routines : List String) : List (Directive Label) :=
  (((numbered 1 (positionKeys routines.length)).zip routines).flatMap
      fun ((_, label), routine) => branch label .special unit routine) ++
    branch ⟨0⟩ .virtual unit RoutineName.fallback

open Assembler OpenRoutine in
theorem entryArms_accepted (form : SwitchForm) (unit : String) (routines : List String)
    (a : Assembler) (current : a.current = some (entrySwitched form routines.length)) :
    ∃ a', Succeeds (follow (entryArms unit routines)) a () a' := by
  have open_ : ∀ k, 1 ≤ k → k < 1 + (positionKeys routines.length).length →
      (entrySwitched form routines.length).placed[k]? = some none ∧
        (entrySwitched form routines.length).entryDepth[k]? = some (some 4) := by
    intro k _ lt
    rw [positionKeys_length] at lt
    exact entrySwitched_label form _ k (by omega)
  obtain ⟨b, arms⟩ := follow_branches_accepted unit _ routines 1 a _ current
    (entrySwitched_alike form _).sig open_
  obtain ⟨t, rfl, alike, -, -, ⟨unplaced, entered⟩, -⟩ :=
    entry_branched form unit routines a b current arms
  have accepts := t.acceptsAll_branch ⟨0⟩ .virtual unit RoutineName.fallback rfl alike.sig entered
  have fallback := (follow_branch_iff ⟨0⟩ .virtual unit RoutineName.fallback
    { a with current := some t } _ t rfl).mpr ⟨⟨unplaced, accepts⟩, rfl⟩
  exact ⟨_, (follow_append_iff _ _ _ _).mpr ⟨_, arms, fallback⟩⟩

open Assembler OpenRoutine in
/-- With the last branch the code is complete, and every label is placed. -/
theorem entryArms_written (form : SwitchForm) (unit : String) (routines : List String)
    (a a' : Assembler) (current : a.current = some (entrySwitched form routines.length))
    (h : Succeeds (follow (entryArms unit routines)) a () a') :
    ∃ r, a' = { a with current := some r } ∧
      (start .exported RoutineName.entry .dispatch).Alike r ∧ r.reachable = false ∧
      r.code.toList = entryLoads ++
        [positionSwitch form ⟨0⟩ (numbered 1 (positionKeys routines.length))] ++
        routines.flatMap (branchCode .special unit) ++
        branchCode .virtual unit RoutineName.fallback ∧
      r.placed[0]? = some (some (branchStart routines.length)) ∧
      (∀ k < routines.length, r.placed[1 + k]? = some (some (branchStart k))) ∧
      r.maxStack = 5 ∧ r.maxLocals = 4 := by
  obtain ⟨b, arms, fallback⟩ := (follow_append_iff _ _ _ _).mp h
  obtain ⟨t, rfl, alike, code, size_eq, ⟨unplaced, entered⟩, placed, stack, locals⟩ :=
    entry_branched form unit routines a b current arms
  obtain ⟨-, rfl⟩ := (follow_branch_iff _ _ _ _ _ a' t rfl).mp fallback
  have bound : 0 < t.placed.size := (Array.getElem?_eq_some_iff.mp unplaced).1
  have placed_eq : (t.afterBranch ⟨0⟩ .virtual unit RoutineName.fallback).placed =
      t.placed.setIfInBounds 0 (some t.code.size) := afterAll_placed _ _
  have code_eq : (t.afterBranch ⟨0⟩ .virtual unit RoutineName.fallback).code.toList =
      t.code.toList ++ branchCode .virtual unit RoutineName.fallback := afterAll_code _ _
  refine ⟨_, rfl, ?_, rfl, by rw [code_eq, code], ?_, fun k lt => ?_, ?_, locals⟩
  · exact alike.trans (Alike.trans (s := t.atLabel ⟨0⟩) ⟨rfl, rfl, rfl⟩ (alike_afterAll _ _))
  · rw [placed_eq, size_eq]
    simp [bound]
  · rw [placed_eq, Array.getElem?_setIfInBounds_ne (by omega)]
    exact placed k lt
  · rw [t.afterBranch_maxStack ⟨0⟩ .virtual unit _ rfl entered (by omega), stack]

/-- All targets of a complete entry point have a place. -/
theorem entry_resolved (form : SwitchForm) (unit : String) (routines : List String)
    (r : OpenRoutine)
    (code : r.code.toList = entryLoads ++
      [positionSwitch form ⟨0⟩ (numbered 1 (positionKeys routines.length))] ++
      routines.flatMap (branchCode .special unit) ++
      branchCode .virtual unit RoutineName.fallback)
    (default_placed : r.placed[0]? = some (some (branchStart routines.length)))
    (placed : ∀ k < routines.length, r.placed[1 + k]? = some (some (branchStart k))) :
    ∀ i ∈ r.code, ∀ l ∈ i.targets, r.resolve l = .ok (r.position l) := by
  intro i mem l target
  have switch : l ∈ entryLabels routines.length := by
    rw [← Array.mem_toList_iff, code] at mem
    simp only [entryLoads, branchCode, List.mem_append, List.mem_cons, List.mem_flatMap,
      List.not_mem_nil, or_false] at mem
    obtain ((loads | rfl) | ⟨_, -, rfl | rfl⟩) | rfl | rfl := mem
    · obtain rfl | rfl | rfl | rfl | rfl := loads <;> cases target
    · rw [positionSwitch] at target
      split at target <;> exact target
    all_goals cases target
  have low := (mem_entryLabels_iff _ l).mp switch
  obtain ⟨id⟩ := l
  cases id with
  | zero =>
      rw [OpenRoutine.resolve_ok_iff, OpenRoutine.position, default_placed]
      rfl
  | succ k =>
      have here := placed k (Nat.lt_of_succ_lt_succ low)
      rw [Nat.add_comm] at here
      rw [OpenRoutine.resolve_ok_iff, OpenRoutine.position, here]
      rfl

theorem entryBranches_eq (unit : String) (routines : List String) :
    entryBranches unit ⟨0⟩ ((numbered 1 (positionKeys routines.length)).zip routines) =
      entryArms unit routines ++ [.endRoutine] := rfl

open Assembler OpenRoutine in
theorem emitEntry_holds (unit : String) (routines : List String) (form : SwitchForm)
    (low : routines.length ≤ Token.limit) (a a' : Assembler)
    (h : Succeeds (emitEntry unit (.ofCount routines.length) routines form) a () a') :
    ∃ routine : Routine,
      routine.Holds .exported RoutineName.entry .dispatch (entryCode form unit routines) ∧
      (routine.maxStack = 5 ∧ routine.maxLocals = 4) ∧
      a.routines.any (·.answersTo RoutineName.entry Signature.dispatch.descriptor) = false ∧
      a' = { a with routines := a.routines.push routine, current := none } := by
  rw [emitEntry_eq unit _ routines form (TokenIndex.size_ofCount _ low).symm,
    TokenIndex.keys_ofCount _ low] at h
  simp only [Succeeds.bind_iff] at h
  obtain ⟨_, b, opening, default, c, first, cases, d, others, _, e, switch, branches⟩ := h
  obtain ⟨-, rfl, rfl, rfl⟩ := (entry_switched_iff form _ low a e default cases).mp
    ⟨b, c, d, opening, first, others, switch⟩
  rw [entryBranches_eq] at branches
  obtain ⟨f, arms, last⟩ := (follow_append_iff _ _ _ _).mp branches
  obtain ⟨r, rfl, whole, -, code, default_placed, placed, frame⟩ :=
    entryArms_written form unit routines _ f rfl arms
  rw [follow_singleton_iff] at last
  obtain ⟨_, open_eq, -, -, once, rfl⟩ := (endRoutine_iff _ _ _).mp last
  cases open_eq
  have default_position : r.position ⟨0⟩ = branchStart routines.length := by
    rw [OpenRoutine.position, default_placed]
    rfl
  have case_position (k : Nat) (lt : k < routines.length) : r.position ⟨1 + k⟩ = branchStart k := by
    rw [OpenRoutine.position, placed k lt]
    rfl
  refine ⟨_, finished_holds _ r whole _ ?_, frame, ?_, rfl⟩
  · rw [code]
    simp only [List.map_append, List.map_cons, List.map_nil]
    rw [positionSwitch_resolved form _ r.position default_position case_position,
      List.map_flatMap]
    rfl
  · rw [whole.name, whole.sig] at once
    exact once

open Assembler OpenRoutine in
/-- An entry point is accepted whatever the names of the routines are, if its own name is free. -/
theorem emitEntry_accepted (unit : String) (routines : List String) (form : SwitchForm)
    (low : routines.length ≤ Token.limit) (a : Assembler) (begun : a.header ≠ none)
    (closed : a.current = none)
    (free : a.routines.any
      (·.answersTo RoutineName.entry Signature.dispatch.descriptor) = false) :
    ∃ a', Succeeds (emitEntry unit (.ofCount routines.length) routines form) a () a' := by
  obtain ⟨b, c, d, opening, first, others, switch⟩ :=
    (entry_switched_iff form _ low a _ _ _).mpr ⟨⟨begun, closed⟩, rfl, rfl, rfl⟩
  obtain ⟨f, arms⟩ := entryArms_accepted form unit routines
    { a with current := some (entrySwitched form routines.length) } rfl
  obtain ⟨r, rfl, whole, ended, code, default_placed, placed, -⟩ :=
    entryArms_written form unit routines _ f rfl arms
  have resolved := entry_resolved form unit routines r code default_placed placed
  have once : a.routines.any (·.answersTo r.name r.sig.descriptor) = false := by
    rw [whole.name, whole.sig]
    exact free
  have last := (endRoutine_iff { a with current := some r } _ ()).mpr
    ⟨r, rfl, ended, resolved, once, rfl⟩
  have branches := (follow_append_iff _ _ _ _).mpr ⟨_, arms, (follow_singleton_iff _ _ _).mpr last⟩
  rw [emitEntry_eq unit _ routines form (TokenIndex.size_ofCount _ low).symm,
    TokenIndex.keys_ofCount _ low]
  simp only [Succeeds.bind_iff]
  exact ⟨_, (), b, opening, _, c, first, _, d, others, (), _, switch, branches⟩

end TokenDispatch
