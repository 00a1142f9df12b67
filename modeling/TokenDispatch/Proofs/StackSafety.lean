import TokenDispatch.Proofs.StackDepth

/-!
Paths through a finished routine, and what they do to the stack. The depth that the assembler
followed is the depth of every path exactly if paths agree where the assembler did not compare them;
then no instruction lacks an operand, all paths to it have one depth, and none exceeds the frame.
-/

namespace TokenDispatch

/-- Whether control may go from an instruction at a position to another position. -/
def Instr.LeadsTo (i : Instr Nat) (k j : Nat) : Prop :=
  i.endsBlock = false ∧ j = k + 1 ∨ j ∈ i.targets

namespace Routine

/-- The positions that paths from the start lead to, with the depth of the stack there. A path goes
on from an instruction that finds its operands. -/
inductive Arrives (r : Routine) : Nat → Nat → Prop
  | start : Arrives r 0 0
  | step {k d j : Nat} {i : Instr Nat} (arrives : Arrives r k d) (here : r.code[k]? = some i)
      (enough : i.pops ≤ d) (leads : i.LeadsTo k j) : Arrives r j (i.depthAfter d)

/-- No path leaves the code or finds too few operands, paths to one instruction have one depth, and
the frame has room for it. -/
structure StackSafe (r : Routine) : Prop where
  inside : ∀ k d, r.Arrives k d → k < r.code.size
  pops_le : ∀ k d i, r.Arrives k d → r.code[k]? = some i → i.pops ≤ d
  unique : ∀ k d e, r.Arrives k d → r.Arrives k e → d = e
  depth_le : ∀ k d, r.Arrives k d → d ≤ r.maxStack

end Routine

namespace OpenRoutine

/-- Whether control gets from an instruction to a position in a way that the assembler does not
compare: through a label that the code before it falls into, backwards, or to one of several labels
at one position. -/
def Overlooked (r : OpenRoutine) (i : Instr Label) (k j : Nat) : Prop :=
  i.endsBlock = false ∧ r.Binds j ∨ j ≤ k ∨ r.Crowded j

/-- Wherever a path comes by, what is overlooked brings the depth that was followed. -/
def Agrees (r : OpenRoutine) (depths : List Nat) : Prop :=
  ∀ k i d e j, r.AddedAt depths k i d → r.finished.Arrives k e →
    (i.map r.position).LeadsTo k j → r.Overlooked i k j → depths[j]? = some (i.depthAfter d)

/-- Whether a routine can be finished: the last block has ended, and every target has a position. -/
structure Complete (r : OpenRoutine) : Prop where
  ended : r.reachable = false
  resolved : ∀ i ∈ r.code, ∀ l ∈ i.targets, r.placed[l.id]? = some (some (r.position l))

variable {r : OpenRoutine} {depths : List Nat} {k j d e : Nat} {i : Instr Label}

theorem getElem?_finished (r : OpenRoutine) (k : Nat) :
    r.finished.code[k]? = (r.code[k]?).map (Instr.map r.position) := Array.getElem?_map

theorem finished_at (h : r.AddedAt depths k i d) :
    r.finished.code[k]? = some (i.map r.position) := by
  rw [getElem?_finished, h.1]
  rfl

namespace Tracks

/-- Every instruction has a depth it was added at. -/
theorem addedAt_of_depth (tracks : r.Tracks depths) (depth : depths[k]? = some d) :
    ∃ i, r.AddedAt depths k i d := by
  have lt : k < r.code.size := by
    rw [← tracks.length_eq]
    exact (List.getElem?_eq_some_iff.mp depth).1
  exact ⟨r.code[k], Array.getElem?_eq_getElem lt, depth⟩

/-- What is not overlooked brings the depth that was followed. -/
theorem compared (tracks : r.Tracks depths) (complete : r.Complete) (added : r.AddedAt depths k i d)
    (leads : (i.map r.position).LeadsTo k j) (seen : ¬ r.Overlooked i k j) :
    depths[j]? = some (i.depthAfter d) := by
  obtain ⟨⟨last, at_end, ends⟩, free⟩ := tracks.ended complete.ended
  obtain ⟨plain, rfl⟩ | target := leads
  · rw [Instr.endsBlock_map] at plain
    have lt : k < r.code.size := (Array.getElem?_eq_some_iff.mp added.1).1
    have before_end : k + 1 < depths.length := by
      rw [tracks.length_eq]
      refine Nat.lt_of_le_of_ne lt fun same => ?_
      rw [Array.back?_eq_getElem?, ← same, Nat.add_sub_cancel, added.1] at at_end
      cases at_end
      rw [plain] at ends
      cases ends
    rw [← r.levels_of_lt before_end]
    exact tracks.falls k i d added plain fun binds => seen (.inl ⟨plain, binds⟩)
  · rw [Instr.targets_map] at target
    obtain ⟨l, mem, rfl⟩ := List.mem_map.mp target
    have bound := complete.resolved i (mem_code added) l mem
    have before_end : r.position l < depths.length := by
      rw [tracks.length_eq]
      refine Nat.lt_of_le_of_ne (tracks.bound_le l _ bound) fun same => free ⟨l, ?_⟩
      rw [← same, bound]
    rw [← r.levels_of_lt before_end]
    exact tracks.branches k i d added l mem _ bound
      (Nat.not_le.mp fun le => seen (.inr (.inl le))) fun crowded => seen (.inr (.inr crowded))

/-- Along a path, agreement keeps the depth at what was followed. -/
theorem depth_of_arrives (tracks : r.Tracks depths) (complete : r.Complete)
    (agrees : r.Agrees depths) (arrives : r.finished.Arrives k e) : depths[k]? = some e := by
  induction arrives with
  | start =>
      obtain ⟨⟨last, at_end, -⟩, -⟩ := tracks.ended complete.ended
      have lt : 0 < depths.length := by
        rw [tracks.length_eq]
        exact Array.size_pos_of_mem (Array.mem_of_back? at_end)
      rw [← r.levels_of_lt lt]
      exact tracks.first
  | @step k e j i' arrives here enough leads ih =>
      obtain ⟨i, added⟩ := tracks.addedAt_of_depth ih
      cases (finished_at added).symm.trans here
      rw [Instr.depthAfter_map]
      by_cases overlooked : r.Overlooked i k j
      · exact agrees k i e e j added arrives leads overlooked
      · exact tracks.compared complete added leads overlooked

/-- Agreement makes a routine safe. -/
theorem stackSafe (tracks : r.Tracks depths) (complete : r.Complete) (agrees : r.Agrees depths) :
    r.finished.StackSafe := by
  have depth (k e : Nat) (arrives : r.finished.Arrives k e) :=
    tracks.depth_of_arrives complete agrees arrives
  refine ⟨fun k d arrives => ?_, fun k d i arrives here => ?_, fun k d e first second => ?_,
    fun k d arrives => ?_⟩
  · obtain ⟨i, added⟩ := tracks.addedAt_of_depth (depth k d arrives)
    exact (Array.getElem?_eq_some_iff.mp (finished_at added)).1
  · obtain ⟨i', added⟩ := tracks.addedAt_of_depth (depth k d arrives)
    cases (finished_at added).symm.trans here
    rw [Instr.pops_map]
    exact (tracks.fits k i' d added).1
  · exact Option.some.inj ((depth k d first).symm.trans (depth k e second))
  · obtain ⟨i, added⟩ := tracks.addedAt_of_depth (depth k d arrives)
    exact (tracks.fits k i d added).2

/-- The depths that were followed are those of all paths, in a safe routine, exactly if paths
agree. -/
theorem agrees_iff (tracks : r.Tracks depths) (complete : r.Complete) :
    r.Agrees depths ↔
      r.finished.StackSafe ∧ ∀ k d, r.finished.Arrives k d → depths[k]? = some d := by
  constructor
  · intro agrees
    exact ⟨tracks.stackSafe complete agrees,
      fun k d arrives => tracks.depth_of_arrives complete agrees arrives⟩
  · intro ⟨safe, depth⟩ k i d e j added arrives leads _
    have here := finished_at added
    have longer := arrives.step here (safe.pops_le k e _ arrives here) leads
    cases (depth k e arrives).symm.trans added.2
    rw [Instr.depthAfter_map] at longer
    exact depth j _ longer

/-- Where each instruction is reached with the depth that was followed, a safe routine leaves its
paths no other depth. -/
theorem agrees_of_attained (tracks : r.Tracks depths) (safe : r.finished.StackSafe)
    (attained : ∀ k d, depths[k]? = some d → r.finished.Arrives k d) : r.Agrees depths := by
  intro k i d e j added _ leads _
  have here := finished_at added
  have arrives := attained k d added.2
  have longer := arrives.step here (safe.pops_le k d _ arrives here) leads
  rw [Instr.depthAfter_map] at longer
  have inside : j < depths.length := by
    have lt := safe.inside j _ longer
    rw [OpenRoutine.finished, Array.size_map, ← tracks.length_eq] at lt
    exact lt
  have depth := List.getElem?_eq_getElem inside
  rw [depth, safe.unique j _ _ longer (attained j _ depth)]

end Tracks

end OpenRoutine

end TokenDispatch
