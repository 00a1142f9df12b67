import TokenDispatch.Assembler

/-!
What a successful call does to an assembler. Each edit of an open routine has one lemma that says
when it succeeds and what it leaves; a directive without labels adds one instruction, and a routine
that ends has its labels replaced by positions.
-/

namespace TokenDispatch

variable {σ τ ρ : Type}

/-- An action takes one state to another and answers with a result, not with an error. -/
def Succeeds {α : Type} (x : ExceptT EmitError (StateM σ) α) (s : σ) (a : α) (s' : σ) : Prop :=
  @Eq (Except EmitError α × σ) (x s) (.ok a, s')

namespace Succeeds

theorem bind_iff {α β : Type} (x : ExceptT EmitError (StateM σ) α)
    (f : α → ExceptT EmitError (StateM σ) β) (s s' : σ) (b : β) :
    Succeeds (x >>= f) s b s' ↔ ∃ a s₁, Succeeds x s a s₁ ∧ Succeeds (f a) s₁ b s' := by
  have run : (x >>= f) s = match x s with
      | (.ok a, s₁) => f a s₁
      | (.error e, s₁) => (.error e, s₁) := by
    change (match x s with
      | (r, s₁) => (ExceptT.bindCont f r : StateM σ (Except EmitError β)) s₁) = _
    obtain ⟨e | a, s₁⟩ := x s <;> rfl
  unfold Succeeds
  rw [run]
  obtain ⟨e | a, s₁⟩ := x s
  · simp
  · constructor
    · exact fun h => ⟨a, s₁, rfl, h⟩
    · rintro ⟨_, _, h, rest⟩
      cases h
      exact rest

theorem pure_iff {α : Type} (a b : α) (s s' : σ) :
    Succeeds (pure a : ExceptT EmitError (StateM σ) α) s b s' ↔ a = b ∧ s = s' := by
  change @Eq (Except EmitError α × σ) (.ok a, s) (.ok b, s') ↔ _
  simp

theorem map_iff {α β : Type} (g : α → β) (x : ExceptT EmitError (StateM σ) α) (s s' : σ) (b : β) :
    Succeeds (g <$> x) s b s' ↔ ∃ a, Succeeds x s a s' ∧ g a = b := by
  rw [map_eq_pure_bind]
  simp only [bind_iff, pure_iff]
  refine ⟨fun h => ?_, fun h => ?_⟩
  · obtain ⟨a, _, run, same, rfl⟩ := h
    exact ⟨a, run, same⟩
  · obtain ⟨a, run, same⟩ := h
    exact ⟨a, s', run, same, rfl⟩

theorem not_throw {α : Type} (e : EmitError) (a : α) (s s' : σ) :
    ¬ Succeeds (throw e : ExceptT EmitError (StateM σ) α) s a s' := by
  change ¬ @Eq (Except EmitError α × σ) (.error e, s) (.ok a, s')
  simp

theorem get_bind_iff {β : Type} (f : σ → ExceptT EmitError (StateM σ) β) (s s' : σ) (b : β) :
    Succeeds (get >>= f) s b s' ↔ Succeeds (f s) s b s' := Iff.rfl

theorem ok_pair_iff {α : Type} (a b : α) (s s' : σ) :
    @Eq (Except EmitError α × σ) (.ok a, s) (.ok b, s') ↔ b = a ∧ s' = s := by
  simp [eq_comm]

theorem error_pair_iff {α : Type} (e : EmitError) (a : α) (s s' : σ) :
    @Eq (Except EmitError α × σ) (.error e, s) (.ok a, s') ↔ False := by
  simp

theorem of_toOption {α : Type} (x : ExceptT EmitError (StateM σ) α) (s : σ) (a : α)
    (h : Except.toOption (x s : Except EmitError α × σ).1 = some a) :
    Succeeds x s a (x s : Except EmitError α × σ).2 := by
  rw [Succeeds]
  generalize x s = outcome at h ⊢
  obtain ⟨e | b, s'⟩ := outcome
  · cases h
  · cases h
    rfl

end Succeeds

namespace Instr

def map (g : τ → ρ) : Instr τ → Instr ρ
  | loadLocal slot => loadLocal slot
  | pushInt value => pushInt value
  | pushNull => pushNull
  | arrayLoad => arrayLoad
  | unbox kind => unbox kind
  | checkCast target => checkCast target
  | call site => call site
  | box kind => box kind
  | ret => ret
  | retVoid => retVoid
  | lookupSwitch default cases => lookupSwitch (g default) (cases.map fun c => (c.1, g c.2))
  | tableSwitch low default targets => tableSwitch low (g default) (targets.map g)

theorem pops_map (g : τ → ρ) (i : Instr τ) : (i.map g).pops = i.pops := by
  cases i <;> rfl

theorem pushes_map (g : τ → ρ) (i : Instr τ) : (i.map g).pushes = i.pushes := by
  cases i <;> rfl

/-- The depth of the stack after an instruction. -/
def depthAfter (i : Instr τ) (depth : Nat) : Nat := depth - i.pops + i.pushes

theorem depthAfter_map (g : τ → ρ) (i : Instr τ) (depth : Nat) :
    (i.map g).depthAfter depth = i.depthAfter depth := by
  rw [depthAfter, pops_map, pushes_map]
  rfl

theorem endsBlock_map (g : τ → ρ) (i : Instr τ) : (i.map g).endsBlock = i.endsBlock := by
  cases i <;> rfl

theorem targets_map (g : τ → ρ) (i : Instr τ) : (i.map g).targets = i.targets.map g := by
  cases i <;> simp [map, targets]

end Instr

@[simp] theorem except_ok_bind {α β ε : Type} (a : α) (f : α → Except ε β) :
    (Except.ok a >>= f) = f a := rfl

theorem except_bind_ok_iff {α β ε : Type} (x : Except ε α) (f : α → Except ε β) (b : β) :
    x >>= f = .ok b ↔ ∃ a, x = .ok a ∧ f a = .ok b := by
  cases x with
  | error e => simp [bind, Except.bind]
  | ok a => simp [bind, Except.bind]

section Replace

variable {α β ε : Type} {f : α → Except ε β} {g : α → β} (sound : ∀ a b, f a = .ok b → b = g a)
include sound

theorem mapM_ok_iff (xs : List α) (ys : List β) :
    xs.mapM f = .ok ys ↔ (∀ x ∈ xs, f x = .ok (g x)) ∧ ys = xs.map g := by
  induction xs generalizing ys with
  | nil => simp [pure, Except.pure, eq_comm]
  | cons x xs ih =>
      simp only [List.mapM_cons, except_bind_ok_iff, pure, Except.pure, Except.ok.injEq, ih,
        List.forall_mem_cons, List.map_cons]
      constructor
      · rintro ⟨y, head, _, ⟨tail, rfl⟩, rfl⟩
        cases sound x y head
        exact ⟨⟨head, tail⟩, rfl⟩
      · rintro ⟨⟨head, tail⟩, rfl⟩
        exact ⟨g x, head, xs.map g, ⟨tail, rfl⟩, rfl⟩

theorem array_mapM_ok_iff (xs : Array α) (ys : Array β) :
    xs.mapM f = .ok ys ↔ (∀ x ∈ xs, f x = .ok (g x)) ∧ ys = xs.map g := by
  have list_iff (zs : List β) := mapM_ok_iff sound xs.toList zs
  rw [Array.mapM_eq_mapM_toList]
  constructor
  · intro h
    cases run : xs.toList.mapM f with
    | error e => simp [run, Functor.map, Except.map] at h
    | ok zs =>
        obtain ⟨all, rfl⟩ := (list_iff zs).mp run
        rw [run] at h
        cases h
        exact ⟨fun x mem => all x (Array.mem_toList_iff.mpr mem), Array.ext' (by simp)⟩
  · rintro ⟨all, rfl⟩
    rw [(list_iff _).mpr ⟨fun x mem => all x (Array.mem_toList_iff.mp mem), rfl⟩]
    exact congrArg Except.ok (Array.ext' (by simp))

theorem mapTargets_ok_iff (i : Instr α) (j : Instr β) :
    i.mapTargets f = .ok j ↔ (∀ t ∈ i.targets, f t = .ok (g t)) ∧ j = i.map g := by
  cases i with
  | lookupSwitch default cases =>
      have case_iff (c : Int32 × α) (d : Int32 × β) :
          (do let t ← f c.2; pure (c.1, t)) = Except.ok d ↔ f c.2 = .ok d.2 ∧ d.1 = c.1 := by
        simp only [except_bind_ok_iff, pure, Except.pure, Except.ok.injEq]
        constructor
        · rintro ⟨t, ok, rfl⟩
          exact ⟨ok, rfl⟩
        · rintro ⟨ok, key⟩
          exact ⟨d.2, ok, by rw [← key]⟩
      have sound_case (c : Int32 × α) (d : Int32 × β)
          (h : (do let t ← f c.2; pure (c.1, t)) = Except.ok d) : d = (c.1, g c.2) := by
        obtain ⟨ok, key⟩ := (case_iff c d).mp h
        exact Prod.ext key (sound _ _ ok)
      simp only [Instr.mapTargets, Instr.targets, Instr.map, except_bind_ok_iff, pure, Except.pure,
        Except.ok.injEq, List.forall_mem_cons, List.forall_mem_map]
      constructor
      · rintro ⟨d, head, pairs, tail, rfl⟩
        obtain ⟨all, rfl⟩ := (mapM_ok_iff sound_case cases pairs).mp tail
        cases sound _ _ head
        exact ⟨⟨head, fun c mem => ((case_iff c _).mp (all c mem)).1⟩, rfl⟩
      · rintro ⟨⟨head, tail⟩, rfl⟩
        refine ⟨_, head, _, (mapM_ok_iff sound_case cases _).mpr ⟨fun c mem => ?_, rfl⟩, rfl⟩
        exact (case_iff c _).mpr ⟨tail c mem, rfl⟩
  | tableSwitch low default targets =>
      simp only [Instr.mapTargets, Instr.targets, Instr.map, except_bind_ok_iff, pure, Except.pure,
        mapM_ok_iff sound, Except.ok.injEq, List.forall_mem_cons]
      constructor
      · rintro ⟨d, head, _, ⟨tail, rfl⟩, rfl⟩
        cases sound _ _ head
        exact ⟨⟨head, tail⟩, rfl⟩
      · rintro ⟨⟨head, tail⟩, rfl⟩
        exact ⟨_, head, _, ⟨tail, rfl⟩, rfl⟩
  | _ => simp [Instr.mapTargets, Instr.targets, Instr.map, pure, Except.pure, eq_comm]

end Replace

/-- The instruction that a directive without labels adds to the open routine. -/
def Directive.instr? {L : Type} : Directive L → Option (Instr τ)
  | .loadLocal slot => some (.loadLocal slot)
  | .pushInt value => some (.pushInt value)
  | .pushNull => some .pushNull
  | .arrayLoad => some .arrayLoad
  | .unbox kind => some (.unbox kind)
  | .checkCast target => some (.checkCast target)
  | .invoke kind owner name sig => some (.call { kind, owner, name, sig })
  | .box kind => some (.box kind)
  | .ret .void => some .retVoid
  | .ret .reference => some .ret
  | _ => none

theorem Directive.instr?_map {L : Type} (d : Directive L) (g : τ → ρ) :
    (d.instr? : Option (Instr τ)).map (Instr.map g) = d.instr? := by
  cases d with
  | ret kind => cases kind <;> rfl
  | _ => rfl

theorem Directive.targets_of_instr? {L : Type} (d : Directive L) (i : Instr τ)
    (h : d.instr? = some i) : i.targets = [] := by
  cases d with
  | ret kind => cases kind <;> cases h <;> rfl
  | beginUnit _ _ | beginRoutine _ _ _ | placeLabel _ | lookupSwitch _ _ | tableSwitch _ _ _
  | endRoutine => cases h
  | _ => cases h; rfl

/-- Whether a directive belongs inside a routine. -/
def Directive.isInner {L : Type} : Directive L → Bool
  | .beginUnit .. | .beginRoutine .. | .endRoutine => false
  | _ => true

namespace OpenRoutine

/-- Where a label is bound; a label that is not bound counts as the start. -/
def position (r : OpenRoutine) (label : Label) : Nat := (r.placed[label.id]?.join).getD 0

def finished (r : OpenRoutine) : Routine where
  access := r.access
  name := r.name
  sig := r.sig
  descriptor := r.sig.descriptor
  code := r.code.map (Instr.map r.position)
  maxStack := r.maxStack
  maxLocals := r.maxLocals

theorem resolve_ok_iff (r : OpenRoutine) (label : Label) (p : Nat) :
    r.resolve label = .ok p ↔ r.placed[label.id]? = some (some p) := by
  rw [resolve]
  obtain _ | _ | q := r.placed[label.id]? <;> simp

theorem eq_position (r : OpenRoutine) (label : Label) (p : Nat)
    (h : r.resolve label = .ok p) : p = r.position label := by
  rw [resolve_ok_iff] at h
  simp [position, h]

theorem finish_ok_iff (r : OpenRoutine) (routine : Routine) :
    r.finish = .ok routine ↔
      r.reachable = false ∧
        (∀ i ∈ r.code, ∀ l ∈ i.targets, r.resolve l = .ok (r.position l)) ∧
        routine = r.finished := by
  have instr_iff (i : Instr Label) (j : Instr Nat) :=
    mapTargets_ok_iff (fun l p h => r.eq_position l p h) i j
  have code_iff (code : Array (Instr Nat)) :
      r.code.mapM (·.mapTargets r.resolve) = .ok code ↔
        (∀ i ∈ r.code, ∀ l ∈ i.targets, r.resolve l = .ok (r.position l)) ∧
          code = r.code.map (Instr.map r.position) := by
    rw [array_mapM_ok_iff (fun i j h => ((instr_iff i j).mp h).2)]
    simp only [instr_iff, and_true]
  rw [finish]
  cases r.reachable with
  | true => simp [throw, throwThe, MonadExceptOf.throw, bind, Except.bind]
  | false =>
      simp only [Bool.false_eq_true, if_false, except_bind_ok_iff, pure, Except.pure,
        Except.ok.injEq, code_iff, true_and]
      constructor
      · rintro ⟨code, ⟨targets, rfl⟩, rfl⟩
        exact ⟨targets, rfl⟩
      · rintro ⟨targets, rfl⟩
        exact ⟨_, ⟨targets, rfl⟩, rfl⟩

/-- What the limits of a routine and its signature ask of an instruction. -/
def Permits (r : OpenRoutine) : Instr Label → Prop
  | .loadLocal slot => slot < r.maxLocals
  | .checkCast target => target.isReference = true
  | .call site => site.operands ≤ frameLimit
  | .ret => r.sig.ret.isReference = true
  | .retVoid => r.sig.returnsVoid = true
  | _ => True

structure Accepts (r : OpenRoutine) (i : Instr Label) : Prop where
  permitted : r.Permits i
  reachable : r.reachable = true
  pops_le : i.pops ≤ r.depth
  depth_le : r.depth - i.pops + i.pushes ≤ frameLimit

theorem accepts_iff (r : OpenRoutine) (i : Instr Label) :
    r.Accepts i ↔ r.Permits i ∧ r.reachable = true ∧ i.pops ≤ r.depth ∧
      r.depth - i.pops + i.pushes ≤ frameLimit :=
  ⟨fun h => ⟨h.permitted, h.reachable, h.pops_le, h.depth_le⟩,
    fun h => ⟨h.1, h.2.1, h.2.2.1, h.2.2.2⟩⟩

/-- The routine once an instruction without branch targets is added. -/
def after (r : OpenRoutine) (i : Instr Label) : OpenRoutine :=
  { r with
    code := r.code.push i
    depth := if i.endsBlock then 0 else r.depth - i.pops + i.pushes
    maxStack := max r.maxStack (r.depth - i.pops + i.pushes)
    reachable := !i.endsBlock }

def atLabel (r : OpenRoutine) (label : Label) : OpenRoutine :=
  { r with
    placed := r.placed.setIfInBounds label.id (some r.code.size)
    depth := (r.entryDepth[label.id]?.join).getD (if r.reachable then r.depth else 0)
    reachable := true }

/-- Records that branches bring a depth to labels. -/
def enter (r : OpenRoutine) (depth : Nat) (labels : List Label) : OpenRoutine :=
  { r with
    entryDepth := labels.foldl (fun known l => known.setIfInBounds l.id (some depth)) r.entryDepth }

/-- Whether a branch may bring a depth to a label. -/
def Admits (r : OpenRoutine) (depth : Nat) (label : Label) : Prop :=
  ∃ known, r.entryDepth[label.id]? = some known ∧ (known = none ∨ known = some depth)

/-- The routine once a switch is added; the switch takes the key off the stack. -/
def afterSwitch (r : OpenRoutine) (i : Instr Label) (labels : List Label) : OpenRoutine :=
  { r.enter (r.depth - 1) labels with code := r.code.push i, depth := 0, reachable := false }

end OpenRoutine

namespace Edit

open OpenRoutine

theorem pop_iff (count : Nat) (r r' : OpenRoutine) (u : Unit) :
    Succeeds (pop count) r u r' ↔
      r.reachable = true ∧ count ≤ r.depth ∧ r' = { r with depth := r.depth - count } := by
  rw [Succeeds, pop]
  by_cases reachable : r.reachable = true
  · by_cases low : r.depth < count
    · simp [reachable, low, Nat.not_le.mpr low]
    · simp only [reachable, low, Nat.not_lt.mp low, Succeeds.ok_pair_iff, Bool.not_true,
        Bool.false_eq_true, if_false, true_and]
  · simp [reachable]

theorem push_iff (count : Nat) (r r' : OpenRoutine) (u : Unit) :
    Succeeds (push count) r u r' ↔
      r.reachable = true ∧ r.depth + count ≤ frameLimit ∧
        r' = { r with
          depth := r.depth + count, maxStack := max r.maxStack (r.depth + count) } := by
  rw [Succeeds, push]
  by_cases reachable : r.reachable = true
  · by_cases high : frameLimit < r.depth + count
    · simp [reachable, high, Nat.not_le.mpr high]
    · simp only [reachable, high, Nat.not_lt.mp high, Succeeds.ok_pair_iff, Bool.not_true,
        Bool.false_eq_true, if_false, true_and]
  · simp [reachable]

theorem append_iff (i : Instr Label) (r r' : OpenRoutine) (u : Unit) :
    Succeeds (append i) r u r' ↔
      r' = { r with
        code := r.code.push i
        depth := if i.endsBlock then 0 else r.depth
        reachable := r.reachable && !i.endsBlock } := by
  rw [Succeeds, append]
  cases i.endsBlock with
  | true => simp only [if_true, Succeeds.ok_pair_iff, Bool.not_true, Bool.and_false, true_and]
  | false =>
      simp only [Bool.false_eq_true, if_false, Succeeds.ok_pair_iff, Bool.not_false, Bool.and_true,
        true_and]

theorem instruct_iff (i : Instr Label) (r r' : OpenRoutine) (u : Unit) :
    Succeeds (instruct i) r u r' ↔
      (r.reachable = true ∧ i.pops ≤ r.depth ∧ r.depth - i.pops + i.pushes ≤ frameLimit) ∧
        r' = r.after i := by
  simp only [instruct, Succeeds.bind_iff, pop_iff, push_iff, append_iff]
  constructor
  · rintro ⟨_, _, ⟨reachable, pops, rfl⟩, _, _, ⟨_, depth, rfl⟩, rfl⟩
    exact ⟨⟨reachable, pops, depth⟩, by simp [after, reachable]⟩
  · rintro ⟨⟨reachable, pops, depth⟩, rfl⟩
    exact ⟨(), _, ⟨reachable, pops, rfl⟩, (), _, ⟨reachable, depth, rfl⟩, by
      simp [after, reachable]⟩

theorem placeLabel_iff (label : Label) (r r' : OpenRoutine) (u : Unit) :
    Succeeds (placeLabel label) r u r' ↔
      r.placed[label.id]? = some none ∧ r' = r.atLabel label := by
  rw [Succeeds, placeLabel, atLabel]
  obtain _ | _ | p := r.placed[label.id]?
  · simp
  · simp only [Succeeds.ok_pair_iff, true_and]
  · simp

theorem branchTo_iff (label : Label) (r r' : OpenRoutine) (u : Unit) :
    Succeeds (branchTo label) r u r' ↔
      r.Admits r.depth label ∧ r' = r.enter r.depth [label] := by
  rw [Succeeds, branchTo, Admits, enter]
  obtain _ | _ | d := r.entryDepth[label.id]?
  · simp
  · simp [eq_comm (b := r')]
  · by_cases h : d = r.depth
    · subst h
      simp [eq_comm (b := r')]
    · simp [h]

/-- A branch to one label does not change which labels a branch at the same depth may go to. -/
theorem admits_enter_iff (r : OpenRoutine) (depth : Nat) (l m : Label) (h : r.Admits depth m) :
    (r.enter depth [m]).Admits depth l ↔ r.Admits depth l := by
  obtain ⟨known, get, fits⟩ := h
  have bound : m.id < r.entryDepth.size := (Array.getElem?_eq_some_iff.mp get).1
  unfold Admits enter
  simp only [List.foldl_cons, List.foldl_nil, Array.getElem?_setIfInBounds]
  by_cases same : m.id = l.id
  · rw [if_pos same, if_pos bound, ← same, get]
    simpa using fits
  · rw [if_neg same]

theorem branches_iff (labels : List Label) (r r' : OpenRoutine) (u : Unit) :
    Succeeds (labels.forM branchTo) r u r' ↔
      (∀ l ∈ labels, r.Admits r.depth l) ∧ r' = r.enter r.depth labels := by
  induction labels generalizing r with
  | nil =>
      change Succeeds (pure ()) r u r' ↔ _
      simp [Succeeds.pure_iff, enter, eq_comm]
  | cons l labels ih =>
      change Succeeds (branchTo l >>= fun _ => labels.forM branchTo) r u r' ↔ _
      simp only [Succeeds.bind_iff, branchTo_iff, ih, List.forall_mem_cons]
      have depth_eq : (r.enter r.depth [l]).depth = r.depth := rfl
      constructor
      · rintro ⟨_, _, ⟨first, rfl⟩, rest, rfl⟩
        rw [depth_eq] at rest ⊢
        exact ⟨⟨first, fun m mem => (admits_enter_iff r _ m l first).mp (rest m mem)⟩, rfl⟩
      · rintro ⟨⟨first, rest⟩, rfl⟩
        refine ⟨(), _, ⟨first, rfl⟩, ?_, rfl⟩
        exact fun m mem => (admits_enter_iff r _ m l first).mpr (rest m mem)

/-- A switch of either form: the key goes, every branch is entered, and the block is over. -/
theorem switch_iff (i : Instr Label) (ends : i.endsBlock = true) (labels : List Label)
    (r r' : OpenRoutine) (u : Unit) :
    Succeeds (do pop 1; labels.forM branchTo; append i) r u r' ↔
      (r.reachable = true ∧ 1 ≤ r.depth ∧ ∀ l ∈ labels, r.Admits (r.depth - 1) l) ∧
        r' = r.afterSwitch i labels := by
  simp only [Succeeds.bind_iff, pop_iff, branches_iff, append_iff]
  constructor
  · rintro ⟨_, _, ⟨reachable, depth, rfl⟩, _, _, ⟨admits, rfl⟩, rfl⟩
    exact ⟨⟨reachable, depth, admits⟩, by simp [afterSwitch, enter, ends]⟩
  · rintro ⟨⟨reachable, depth, admits⟩, rfl⟩
    exact ⟨(), _, ⟨reachable, depth, rfl⟩, (), _, ⟨admits, rfl⟩, by
      simp [afterSwitch, enter, ends]⟩

theorem lookupSwitch_iff (default : Label) (cases : List (Int32 × Label)) (r r' : OpenRoutine)
    (u : Unit) :
    Succeeds (lookupSwitch default cases) r u r' ↔
      (r.reachable = true ∧ 1 ≤ r.depth ∧
        (∀ l ∈ default :: cases.map (·.2), r.Admits (r.depth - 1) l) ∧
        repeated? (sortCases cases) = none) ∧
      r' = r.afterSwitch (.lookupSwitch default (sortCases cases))
        (default :: cases.map (·.2)) := by
  have labels (cs : List (Int32 × Label)) :
      cs.forM (fun c => branchTo c.2) = (cs.map (·.2)).forM branchTo := by
    induction cs with
    | nil => rfl
    | cons c cs ih => rw [List.forM, ih, List.map_cons, List.forM]
  have split : lookupSwitch default cases = (do
      pop 1
      (default :: cases.map (·.2)).forM branchTo
      (repeated? (sortCases cases)).elim (append (.lookupSwitch default (sortCases cases)))
        fun key => throw (.duplicateKey key)) := by
    rw [lookupSwitch, List.forM, ← labels]
    refine congrArg (pop 1 >>= ·) (funext fun _ => ?_)
    rw [bind_assoc]
    refine congrArg (branchTo default >>= ·) (funext fun _ => ?_)
    refine congrArg ((cases.forM fun c => branchTo c.2) >>= ·) (funext fun _ => ?_)
    dsimp only
    cases repeated? (sortCases cases) with
    | some key => rfl
    | none => rfl
  rw [split]
  cases repeated? (sortCases cases) with
  | some key => simp [Succeeds.bind_iff, Succeeds.not_throw]
  | none =>
      simp only [and_true]
      exact switch_iff (.lookupSwitch default (sortCases cases)) rfl _ r r' u

theorem tableSwitch_iff (low : Int32) (default : Label) (targets : List Label)
    (r r' : OpenRoutine) (u : Unit) :
    Succeeds (tableSwitch low default targets) r u r' ↔
      (r.reachable = true ∧ 1 ≤ r.depth ∧ ∀ l ∈ default :: targets, r.Admits (r.depth - 1) l) ∧
      r' = r.afterSwitch (.tableSwitch low default targets) (default :: targets) := by
  have split : tableSwitch low default targets = (do
      pop 1
      (default :: targets).forM branchTo
      append (.tableSwitch low default targets)) := by
    simp [tableSwitch, List.forM]
  rw [split]
  exact switch_iff (.tableSwitch low default targets) rfl _ r r' u

theorem loadLocal_iff (slot : Nat) (r r' : OpenRoutine) (u : Unit) :
    Succeeds (loadLocal slot) r u r' ↔
      r.Accepts (.loadLocal slot) ∧ r' = r.after (.loadLocal slot) := by
  rw [loadLocal, Succeeds.get_bind_iff, accepts_iff, Permits]
  split
  · simp_all [instruct_iff]
  · simp [*, Succeeds.not_throw]

theorem ret_void_iff (r r' : OpenRoutine) (u : Unit) :
    Succeeds (ret .void) r u r' ↔ r.Accepts .retVoid ∧ r' = r.after .retVoid := by
  rw [ret, Succeeds.get_bind_iff, accepts_iff, Permits]
  dsimp only
  split <;> simp_all [instruct_iff, Succeeds.not_throw]

theorem ret_reference_iff (r r' : OpenRoutine) (u : Unit) :
    Succeeds (ret .reference) r u r' ↔ r.Accepts .ret ∧ r' = r.after .ret := by
  rw [ret, Succeeds.get_bind_iff, accepts_iff, Permits]
  dsimp only
  split <;> simp_all [instruct_iff, Succeeds.not_throw]

/-- An instruction that only the depth of the stack can forbid. -/
theorem instruct_iff_accepts (i : Instr Label) (r r' : OpenRoutine) (u : Unit)
    (h : r.Permits i) :
    Succeeds (instruct i) r u r' ↔ r.Accepts i ∧ r' = r.after i := by
  simp only [instruct_iff, accepts_iff, h, true_and]

end Edit

namespace Assembler

open OpenRoutine

theorem within_iff (edit : Edit Unit) (a a' : Assembler) (u : Unit) :
    Succeeds (within edit) a u a' ↔
      ∃ r r', a.current = some r ∧ Succeeds edit r u r' ∧ a' = { a with current := some r' } := by
  obtain ⟨header, routines, current⟩ := a
  cases current with
  | none => simp [Succeeds, within]
  | some r =>
      have run : within edit ⟨header, routines, some r⟩ =
          ((edit r).1, ⟨header, routines, some (edit r).2⟩) := rfl
      rw [Succeeds, run]
      constructor
      · intro h
        obtain ⟨ok, rfl⟩ := Prod.mk.inj h
        exact ⟨r, (edit r).2, rfl, Prod.ext ok rfl, rfl⟩
      · rintro ⟨_, r', ⟨⟩, h, rfl⟩
        rw [h]

/-- What a directive inside a routine makes of the routine. -/
inductive Extends (r : OpenRoutine) : Directive Label → OpenRoutine → Prop
  | instruct {d : Directive Label} {i : Instr Label} (instr : d.instr? = some i)
      (accepts : r.Accepts i) : Extends r d (r.after i)
  | placeLabel {l : Label} (unplaced : r.placed[l.id]? = some none) :
      Extends r (.placeLabel l) (r.atLabel l)
  | lookupSwitch {default : Label} {cases : List (Int32 × Label)} (reachable : r.reachable = true)
      (key : 1 ≤ r.depth) (admits : ∀ l ∈ default :: cases.map (·.2), r.Admits (r.depth - 1) l)
      (distinct : Edit.repeated? (Edit.sortCases cases) = none) :
      Extends r (.lookupSwitch default cases)
        (r.afterSwitch (.lookupSwitch default (Edit.sortCases cases))
          (default :: cases.map (·.2)))
  | tableSwitch {low : Int32} {default : Label} {targets : List Label} (some : targets ≠ [])
      (reachable : r.reachable = true) (key : 1 ≤ r.depth)
      (admits : ∀ l ∈ default :: targets, r.Admits (r.depth - 1) l) :
      Extends r (.tableSwitch low default targets)
        (r.afterSwitch (.tableSwitch low default targets) (default :: targets))

theorem perform_instr_iff (d : Directive Label) (i : Instr Label) (h : d.instr? = some i)
    (a a' : Assembler) (u : Unit) :
    Succeeds (perform d) a u a' ↔
      ∃ r, a.current = some r ∧ r.Accepts i ∧ a' = { a with current := some (r.after i) } := by
  have inside (edit : Edit Unit)
      (edit_iff : ∀ r r' u, Succeeds edit r u r' ↔ r.Accepts i ∧ r' = r.after i) :
      Succeeds (within edit) a u a' ↔
        ∃ r, a.current = some r ∧ r.Accepts i ∧ a' = { a with current := some (r.after i) } := by
    simp only [within_iff, edit_iff]
    constructor
    · rintro ⟨r, _, open_eq, ⟨accepts, rfl⟩, rfl⟩
      exact ⟨r, open_eq, accepts, rfl⟩
    · rintro ⟨r, open_eq, accepts, rfl⟩
      exact ⟨r, _, open_eq, ⟨accepts, rfl⟩, rfl⟩
  have free (permits : ∀ r : OpenRoutine, r.Permits i) :=
    inside (Edit.instruct i) fun r r' u => Edit.instruct_iff_accepts i r r' u (permits r)
  cases d with
  | loadLocal slot =>
      cases h
      exact inside _ (Edit.loadLocal_iff slot)
  | pushInt _ | pushNull | arrayLoad | unbox _ | box _ =>
      cases h
      exact free fun _ => trivial
  | checkCast target =>
      cases h
      rw [perform]
      split
      · exact inside _ fun r r' u => Edit.instruct_iff_accepts _ r r' u ‹_›
      · simp [Succeeds.not_throw, accepts_iff, Permits, *]
  | invoke kind owner name sig =>
      cases h
      rw [perform, invoke]
      split
      · rename_i high
        simp [Succeeds.not_throw, accepts_iff, Permits, Nat.not_le.mpr high]
      · rename_i low
        exact inside _ fun r r' u => Edit.instruct_iff_accepts _ r r' u (Nat.not_lt.mp low)
  | ret kind =>
      cases kind with
      | void =>
          cases h
          exact inside _ Edit.ret_void_iff
      | reference =>
          cases h
          exact inside _ Edit.ret_reference_iff
  | _ => cases h

theorem perform_iff_extends (d : Directive Label) (h : d.isInner = true) (a a' : Assembler)
    (u : Unit) :
    Succeeds (perform d) a u a' ↔
      ∃ r r', a.current = some r ∧ Extends r d r' ∧ a' = { a with current := some r' } := by
  cases instr : (d.instr? : Option (Instr Label)) with
  | some i =>
      rw [perform_instr_iff d i instr]
      constructor
      · rintro ⟨r, current, accepts, rfl⟩
        exact ⟨r, _, current, .instruct instr accepts, rfl⟩
      · rintro ⟨r, r', current, grown, rfl⟩
        cases grown with
        | instruct same accepts =>
            cases instr.symm.trans same
            exact ⟨r, current, accepts, rfl⟩
        | placeLabel | lookupSwitch | tableSwitch => cases instr
  | none =>
      have inside (edit : Edit Unit) (edit_iff : ∀ r r' u, Succeeds edit r u r' ↔ Extends r d r') :
          Succeeds (within edit) a u a' ↔
            ∃ r r', a.current = some r ∧ Extends r d r' ∧ a' = { a with current := some r' } := by
        simp only [within_iff, edit_iff]
      cases d with
      | placeLabel l =>
          refine inside (.placeLabel l) fun r r' u => (Edit.placeLabel_iff l r r' u).trans ?_
          constructor
          · rintro ⟨unplaced, rfl⟩
            exact .placeLabel unplaced
          · rintro (⟨⟨⟩, _⟩ | unplaced)
            exact ⟨unplaced, rfl⟩
      | lookupSwitch default cases =>
          refine inside (.lookupSwitch default cases) fun r r' u =>
            (Edit.lookupSwitch_iff default cases r r' u).trans ?_
          constructor
          · rintro ⟨⟨reachable, key, admits, distinct⟩, rfl⟩
            exact .lookupSwitch reachable key admits distinct
          · rintro (⟨⟨⟩, _⟩ | _ | ⟨reachable, key, admits, distinct⟩)
            exact ⟨⟨reachable, key, admits, distinct⟩, rfl⟩
      | tableSwitch low default targets =>
          rw [perform]
          cases targets with
          | nil =>
              simp only [List.isEmpty_nil, if_true, Succeeds.not_throw, false_iff]
              rintro ⟨r, r', _, ⟨⟨⟩, _⟩ | _ | _ | ⟨nonempty, _, _, _⟩, _⟩
              exact nonempty rfl
          | cons first rest =>
              refine inside (.tableSwitch low default (first :: rest)) fun r r' u =>
                (Edit.tableSwitch_iff low default _ r r' u).trans ?_
              constructor
              · rintro ⟨⟨reachable, key, admits⟩, rfl⟩
                exact .tableSwitch (List.cons_ne_nil _ _) reachable key admits
              · rintro (⟨⟨⟩, _⟩ | _ | _ | ⟨_, reachable, key, admits⟩)
                exact ⟨⟨reachable, key, admits⟩, rfl⟩
      | ret kind => cases kind <;> cases instr
      | beginUnit _ _ | beginRoutine _ _ _ | endRoutine => cases h
      | _ => cases instr

theorem beginUnit_iff (name base : String) (a a' : Assembler) (u : Unit) :
    Succeeds (perform (.beginUnit name base)) a u a' ↔
      a.header = none ∧ a' = { a with header := some (name, base) } := by
  obtain ⟨header, routines, current⟩ := a
  rw [Succeeds, perform, beginUnit]
  cases header with
  | none => simp [eq_comm]
  | some started => simp

theorem beginRoutine_iff (access : Access) (name : String) (sig : Signature) (a a' : Assembler)
    (u : Unit) :
    Succeeds (perform (.beginRoutine access name sig)) a u a' ↔
      (a.header ≠ none ∧ a.current = none ∧ sig.params.length ≤ frameLimit) ∧
        a' = { a with current := some (.start access name sig) } := by
  obtain ⟨header, routines, current⟩ := a
  rw [Succeeds, perform, beginRoutine]
  cases header with
  | none => simp
  | some started =>
      cases current with
      | some r => simp
      | none =>
          by_cases high : frameLimit < sig.params.length
          · simp [high, Nat.not_le.mpr high]
          · simp [high, Nat.not_lt.mp high, eq_comm]

theorem endRoutine_iff (a a' : Assembler) (u : Unit) :
    Succeeds (perform .endRoutine) a u a' ↔
      ∃ r, a.current = some r ∧ r.reachable = false ∧
        (∀ i ∈ r.code, ∀ l ∈ i.targets, r.resolve l = .ok (r.position l)) ∧
        a.routines.any (·.answersTo r.name r.sig.descriptor) = false ∧
        a' = { a with routines := a.routines.push r.finished, current := none } := by
  obtain ⟨header, routines, current⟩ := a
  cases current with
  | none => simp [Succeeds, perform, endRoutine]
  | some r =>
      have finish_iff := r.finish_ok_iff
      cases finish : r.finish with
      | error e =>
          simp only [Succeeds, perform, endRoutine, finish, Succeeds.error_pair_iff, false_iff]
          rintro ⟨_, ⟨⟩, unreachable, targets, _⟩
          have := (finish_iff r.finished).mpr ⟨unreachable, targets, rfl⟩
          simp [finish] at this
      | ok routine =>
          obtain ⟨unreachable, targets, rfl⟩ := (finish_iff routine).mp finish
          have run : perform .endRoutine ⟨header, routines, some r⟩ =
              if routines.any (·.answersTo r.name r.sig.descriptor) then
                (.error (.duplicateRoutine r.name r.sig.descriptor), ⟨header, routines, none⟩)
              else (.ok (), ⟨header, routines.push r.finished, none⟩) := by
            simp only [perform, endRoutine, finish]
            rfl
          rw [Succeeds, run]
          cases twice : routines.any (·.answersTo r.name r.sig.descriptor) with
          | true =>
              refine ⟨fun h => (nomatch h), ?_⟩
              rintro ⟨_, ⟨⟩, _, _, once, _⟩
              exact absurd (twice.symm.trans once) (by decide)
          | false =>
              constructor
              · intro h
                cases h
                exact ⟨r, rfl, unreachable, targets, twice, rfl⟩
              · rintro ⟨_, ⟨⟩, _, _, _, rfl⟩
                rfl

theorem finish_iff (a a' : Assembler) (u : CodeUnit) :
    Succeeds finish a u a' ↔
      ∃ name base, a.current = none ∧ a.header = some (name, base) ∧
        u = ⟨name, base, a.routines⟩ ∧ a' = a := by
  obtain ⟨header, routines, current⟩ := a
  rw [Succeeds, finish]
  cases current with
  | some r => simp
  | none =>
      cases header with
      | none => simp
      | some header =>
          obtain ⟨name, base⟩ := header
          constructor
          · intro h
            cases h
            exact ⟨name, base, rfl, rfl, rfl, rfl⟩
          · rintro ⟨_, _, _, ⟨⟩, rfl, rfl⟩
            rfl

/-- A new label of the open routine is numbered after those it has. -/
theorem fresh_iff (a a' : Assembler) (label : Label) (r : OpenRoutine) (h : a.current = some r) :
    Succeeds (Emitter.fresh : Emit Assembler Label) a label a' ↔
      label = ⟨r.placed.size⟩ ∧ a' = { a with current := some r.newLabel.2 } := by
  obtain ⟨header, routines, current⟩ := a
  cases h
  change @Eq (Except EmitError Label × Assembler) _ _ ↔ _
  rw [show (Emitter.fresh : Emit Assembler Label) ⟨header, routines, some r⟩ =
    (.ok r.newLabel.1, ⟨header, routines, some r.newLabel.2⟩) from rfl, Succeeds.ok_pair_iff]
  rfl

end Assembler

end TokenDispatch
