import TokenDispatch.Proofs.StackSafety

/-!
Where the depths that an assembler follows come from. Unless a label is placed blind, in code that
nothing reaches and before any branch to it, every depth was brought by an instruction further up;
so each instruction is reached by a path that only goes forward and has the depth that was followed.
-/

namespace TokenDispatch

namespace OpenRoutine

/-- Whether a label is placed where control comes by: from the code before it, or by a branch. -/
def sees (r : OpenRoutine) (l : Label) : Bool :=
  r.reachable || (r.entryDepth[l.id]?.join).isSome

/-- Whether control gets from an instruction to a position. -/
def Enters (r : OpenRoutine) (i : Instr Label) (k p : Nat) : Prop :=
  i.endsBlock = false ∧ p = k + 1 ∨ ∃ l ∈ i.targets, r.placed[l.id]? = some (some p)

/-- An instruction further up that brings a depth to a position. -/
def Origin (r : OpenRoutine) (depths : List Nat) (p d : Nat) : Prop :=
  ∃ k i e, r.AddedAt depths k i e ∧ k < p ∧ d = i.depthAfter e ∧ r.Enters i k p

/-- A routine whose followed depths all have an origin, where the end counts if it is reached. -/
structure Originates (r : OpenRoutine) (depths : List Nat) : Prop where
  records : ∀ (l : Label) (d : Nat), r.entryDepth[l.id]? = some (some d) →
    ∃ k i e, r.AddedAt depths k i e ∧ l ∈ i.targets ∧ d = i.depthAfter e
  origin : ∀ p d, (r.levels depths)[p]? = some d → (p = r.code.size → r.reachable = true) →
    p = 0 ∨ r.Origin depths p d

variable {r r' : OpenRoutine} {depths : List Nat} {i : Instr Label} {p d : Nat}

theorem Origin.mono (origin : r.Origin depths p d) (more : List Nat)
    (code : ∀ (k : Nat) (i : Instr Label), r.code[k]? = some i → r'.code[k]? = some i)
    (placed : ∀ l : Label, r.placed[l.id]? = some (some p) → r'.placed[l.id]? = some (some p)) :
    r'.Origin (depths ++ more) p d := by
  obtain ⟨k, i, e, ⟨found, depth⟩, before, brings, enters⟩ := origin
  have lt := (List.getElem?_eq_some_iff.mp depth).1
  refine ⟨k, i, e, ⟨code k i found, ?_⟩, before, brings, ?_⟩
  · rw [List.getElem?_append_left lt]
    exact depth
  · obtain falls | ⟨l, target, bound⟩ := enters
    · exact .inl falls
    · exact .inr ⟨l, target, placed l bound⟩

namespace Originates

theorem start (access : Access) (name : String) (sig : Signature) :
    (OpenRoutine.start access name sig).Originates [] where
  records _ _ h := nomatch h
  origin p d found _ := by
    cases p with
    | zero => exact .inl rfl
    | succ p => cases found

theorem newLabel (originates : r.Originates depths) : r.newLabel.2.Originates depths where
  records l d recorded := by
    change (r.entryDepth.push none)[l.id]? = _ at recorded
    rw [Array.getElem?_push] at recorded
    split at recorded
    · cases recorded
    · exact originates.records l d recorded
  origin p d found reached := by
    refine (originates.origin p d found reached).imp_right fun origin => ?_
    rw [← depths.append_nil]
    exact origin.mono [] (fun _ _ h => h) fun l => (r.placed_newLabel_iff l.id p).mpr

theorem atLabel (originates : r.Originates depths) (tracks : r.Tracks depths) (l : Label)
    (unplaced : r.placed[l.id]? = some none) (sees : r.sees l = true) :
    (r.atLabel l).Originates depths := by
  have move (p d : Nat) (origin : p = 0 ∨ r.Origin depths p d) :
      p = 0 ∨ (r.atLabel l).Origin depths p d := by
    refine origin.imp_right fun origin => ?_
    rw [← depths.append_nil]
    exact origin.mono [] (fun _ _ h => h) fun m => r.placed_atLabel_of_bound l m p unplaced
  refine ⟨originates.records, fun p d found _ => ?_⟩
  have le : p ≤ depths.length := by
    have lt := (List.getElem?_eq_some_iff.mp found).1
    rw [levels, List.length_append] at lt
    exact Nat.le_of_lt_succ lt
  obtain before_end | rfl := Nat.lt_or_eq_of_le le
  · rw [r.levels_eq_of_lt (r.atLabel l) before_end] at found
    refine move p d (originates.origin p d found fun same => ?_)
    rw [same, tracks.length_eq] at before_end
    exact absurd before_end (Nat.lt_irrefl _)
  · cases (levels_length _ depths).symm.trans found
    rw [depth_atLabel]
    cases recorded : r.entryDepth[l.id]?.join with
    | some d =>
        -- A branch has brought this depth to the label, which is bound here now.
        obtain ⟨k, i, e, added, target, brings⟩ :=
          originates.records l d (Option.join_eq_some_iff.mp recorded)
        refine .inr ⟨k, i, e, added, Tracks.lt_length added, brings, .inr ⟨l, target, ?_⟩⟩
        rw [r.placed_atLabel_self l unplaced, tracks.length_eq]
    | none =>
        rw [OpenRoutine.sees, recorded] at sees
        have reachable : r.reachable = true := by simpa using sees
        rw [reachable]
        exact move _ _ (originates.origin _ _ (r.levels_length depths) fun _ => reachable)

theorem adds (originates : r.Originates depths) (tracks : r.Tracks depths) (adds : r.Adds i r') :
    r'.Originates (depths ++ [r.depth]) := by
  have code_eq (k : Nat) (j : Instr Label) (found : r.code[k]? = some j) :
      r'.code[k]? = some j := by
    rw [adds.code_eq, Array.getElem?_push,
      if_neg (Nat.ne_of_lt (Array.getElem?_eq_some_iff.mp found).1)]
    exact found
  have last : r'.AddedAt (depths ++ [r.depth]) depths.length i r.depth := by
    refine ⟨?_, r.levels_length depths⟩
    rw [adds.code_eq, tracks.length_eq, Array.getElem?_push, if_pos rfl]
  refine ⟨fun l d recorded => ?_, fun p d found reached => ?_⟩
  · obtain old | ⟨rfl, among⟩ := adds.only l.id d recorded
    · obtain ⟨k, j, e, ⟨here, depth⟩, target, brings⟩ := originates.records l d old
      refine ⟨k, j, e, ⟨code_eq k j here, ?_⟩, target, brings⟩
      rw [List.getElem?_append_left (List.getElem?_eq_some_iff.mp depth).1]
      exact depth
    · obtain ⟨m, target, same⟩ := List.mem_map.mp among
      cases m
      cases l
      cases same
      exact ⟨_, i, r.depth, last, target, rfl⟩
  · have le : p ≤ (r.levels depths).length := by
      have lt := (List.getElem?_eq_some_iff.mp found).1
      rw [levels, List.length_append] at lt
      exact Nat.le_of_lt_succ lt
    obtain before_end | rfl := Nat.lt_or_eq_of_le le
    · have found' : (r.levels depths)[p]? = some d := by
        rw [← found]
        exact (List.getElem?_append_left before_end).symm
      refine (originates.origin p d found' fun _ => adds.reachable).imp_right fun origin => ?_
      refine origin.mono _ code_eq fun l bound => ?_
      rw [adds.placed_eq]
      exact bound
    · -- The end is reached only if the instruction falls through to it.
      have size_eq : (r.levels depths).length = depths.length + 1 := List.length_append
      have plain : i.endsBlock = false := by
        have reachable := reached (by rw [size_eq, tracks.length_eq, adds.code_eq, Array.size_push])
        rw [adds.reachable_eq] at reachable
        simpa using reachable
      cases (r'.levels_length (r.levels depths)).symm.trans found
      refine .inr ⟨_, i, r.depth, last, ?_, ?_, .inl ⟨plain, size_eq⟩⟩
      · rw [size_eq]
        exact Nat.lt_succ_self _
      · rw [adds.depth_eq, plain]
        rfl

/-- Each instruction is reached by a path with the depth that was followed. -/
theorem arrives (originates : r.Originates depths) (tracks : r.Tracks depths)
    (complete : r.Complete) (k d : Nat) (depth : depths[k]? = some d) :
    r.finished.Arrives k d := by
  induction k using Nat.strongRecOn generalizing d with
  | ind k ih =>
      have lt := (List.getElem?_eq_some_iff.mp depth).1
      have level : (r.levels depths)[k]? = some d := by
        rw [r.levels_of_lt lt]
        exact depth
      have inside : k = r.code.size → r.reachable = true := fun same => by
        rw [same, tracks.length_eq] at lt
        exact absurd lt (Nat.lt_irrefl _)
      obtain rfl | origin := originates.origin k d level inside
      · cases tracks.first.symm.trans level
        exact .start
      · obtain ⟨j, i, e, added, before, rfl, enters⟩ := origin
        have arrives := ih j before e added.2
        have enough : (i.map r.position).pops ≤ e := by
          rw [Instr.pops_map]
          exact (tracks.fits j i e added).1
        rw [← Instr.depthAfter_map r.position]
        refine .step arrives (finished_at added) enough ?_
        obtain ⟨plain, next⟩ | ⟨l, target, bound⟩ := enters
        · exact .inl ⟨(Instr.endsBlock_map _ _).trans plain, next⟩
        · refine .inr ?_
          rw [Instr.targets_map]
          refine List.mem_map.mpr ⟨l, target, ?_⟩
          have resolved := complete.resolved i (Tracks.mem_code added) l target
          exact Option.some.inj (Option.some.inj (resolved.symm.trans bound))

end Originates

end OpenRoutine

end TokenDispatch
