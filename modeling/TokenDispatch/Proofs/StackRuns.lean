import TokenDispatch.Proofs.FrameInvariants
import TokenDispatch.Proofs.StackSafety

/-!
Runs follow paths. Whatever the machine executes, each of its frames stands where a path of its
routine arrives, with as many operands as the path has; so in a safe routine every instruction that
comes to be executed finds its operands, and the frame has room for them.
-/

namespace TokenDispatch

/-- A frame that stands where a path arrives. -/
def Frame.OnPath (f : Frame) : Prop := f.routine.Arrives f.position f.stack.length

/-- A caller whose frame stands behind its call, without the operands of the call. -/
def Caller.OnPath (caller : Caller) : Prop :=
  ∃ k d, caller.frame.routine.Arrives k d ∧
    caller.frame.routine.code[k]? = some (.call caller.site) ∧ caller.frame.position = k + 1 ∧
    d = caller.frame.stack.length + caller.site.operands

/-- A configuration all of whose frames are on a path. -/
structure Config.OnPath (c : Config) : Prop where
  frame : c.frame.OnPath
  callers : ∀ caller ∈ c.callers, caller.OnPath

/-- A run starts at the head of a path. -/
theorem Config.OnPath.start (r : Routine) (locals : List Operand) :
    Config.OnPath ⟨{ routine := r, locals := locals }, []⟩ :=
  ⟨.start, fun _ mem => nomatch mem⟩

/-- An instruction within a frame leads the frame on along a path. -/
theorem Frame.OnPath.exec (h : Hierarchy) (f g : Frame) (i : Instr Nat) (on_path : f.OnPath)
    (here : f.routine.code[f.position]? = some i) (within : i.isLocal = true)
    (ok : f.next.exec h i = .ok g) : g.OnPath := by
  cases straight : i.isStraight with
  | true =>
      obtain ⟨stack, rfl, pops, length⟩ := f.next.exec_moves h i straight g ok
      have longer := on_path.step here pops (.inl ⟨i.endsBlock_of_isStraight straight, rfl⟩)
      rw [OnPath, length]
      exact longer
  | false =>
      obtain ⟨pops, pushes, k, target, taken, mem, rfl⟩ :=
        f.next.exec_switch h g i within straight ok
      obtain ⟨stack, rfl, length⟩ := taken
      have longer :=
        on_path.step here (by rw [pops]; exact length ▸ Nat.le_add_left _ _) (.inr mem)
      have depth : i.depthAfter f.stack.length = stack.length := by
        rw [Instr.depthAfter, pops, pushes]
        exact congrArg (· - 1) length
      rw [depth] at longer
      exact longer

/-- A caller that gets its result goes on behind its call. -/
theorem Config.OnPath.receive (caller : Caller) (g : Frame) (result : Option Operand)
    (on_path : caller.OnPath) (ok : caller.frame.receive caller.site result = .ok g) :
    g.OnPath := by
  obtain ⟨k, depth, arrives, here, position, rfl⟩ := on_path
  have longer := arrives.step here (Nat.le_add_left _ _) (.inl ⟨rfl, position⟩)
  have after_eq : Instr.depthAfter (.call caller.site : Instr Nat)
      (caller.frame.stack.length + caller.site.operands) =
        caller.frame.stack.length + if caller.site.sig.returnsVoid then 0 else 1 :=
    congrArg (· + _) (Nat.add_sub_cancel _ _)
  rw [after_eq] at longer
  unfold Frame.receive at ok
  split at ok
  · rename_i void
    cases ok
    rw [if_pos void] at longer
    exact longer
  · rename_i value
    rw [if_neg value] at longer
    cases result with
    | none => cases ok
    | some operand =>
        cases ok
        exact longer

namespace Program

variable {p : Program}

/-- Every program keeps its frames on paths. -/
theorem keeps_onPath (p : Program) : p.Keeps Frame.OnPath Caller.OnPath where
  exec f g i := Frame.OnPath.exec _ f g i
  call f g site on_path here taken := by
    obtain ⟨stack, rfl, length⟩ := taken
    exact ⟨f.position, _, on_path, here, rfl, length⟩
  enter _ _ _ _ _ _ _ _ _ := .start
  receive := Config.OnPath.receive

theorem goes_onPath (c d : Config) (on_path : c.OnPath)
    (run : Relation.ReflTransGen p.Goes c d) : d.OnPath := by
  have meets := p.keeps_onPath.goes ⟨on_path.frame, on_path.callers⟩ run
  exact ⟨meets.frame, meets.callers⟩

end Program

/-- Whatever a machine executes, at an instruction of this routine it finds the operands that the
instruction takes, and the frame has room for all that there are. -/
def Routine.FindsOperands (r : Routine) : Prop :=
  ∀ (p : Program) (first : Routine) (locals : List Operand) (c : Config),
    Relation.ReflTransGen p.Goes ⟨{ routine := first, locals := locals }, []⟩ c →
    c.frame.routine = r →
    ∃ i, r.code[c.frame.position]? = some i ∧ i.pops ≤ c.frame.stack.length ∧
      c.frame.stack.length ≤ r.maxStack

theorem Routine.StackSafe.findsOperands {r : Routine} (safe : r.StackSafe) : r.FindsOperands := by
  intro p first locals c run same
  have on_path := (Program.goes_onPath _ c (.start first locals) run).frame
  rw [Frame.OnPath, same] at on_path
  have here := Array.getElem?_eq_getElem (safe.inside _ _ on_path)
  exact ⟨_, here, safe.pops_le _ _ _ on_path here, safe.depth_le _ _ on_path⟩

end TokenDispatch
