import TokenDispatch.Entry
import TokenDispatch.Proofs.SwitchRouting
import TokenDispatch.Recorder

/-!
Jump tables for cases with gaps between their keys. Each case takes the slot of its key, in the
order of the cases, and the default takes the slots that are left; so a table sends every key where
a lookup among the cases sends it, also next to the least and the greatest word.
-/

namespace TokenDispatch

variable {L : Type}

/-- What takes the slots of `count` keys from `key` on: a case, or none where a key has no case. -/
def tableSlots (key : Int) : Nat → List (Int32 × L) → List (Option (Int32 × L))
  | 0, _ => []
  | count + 1, [] => none :: tableSlots (key + 1) count []
  | count + 1, first :: rest =>
      if first.1.toInt = key then some first :: tableSlots (key + 1) count rest
      else none :: tableSlots (key + 1) count (first :: rest)

/-- Where a slot leads. -/
def slotTarget (default : L) (slot : Option (Int32 × L)) : L := slot.elim default (·.2)

theorem tableTargets_eq_map (default : L) (key : Int) (count : Nat) (cases : List (Int32 × L)) :
    tableTargets default key count cases =
      (tableSlots key count cases).map (slotTarget default) := by
  induction count generalizing key cases with
  | zero => rfl
  | succ count ih =>
      cases cases with
      | nil => rw [tableTargets, tableSlots, List.map_cons, ih, slotTarget, Option.elim_none]
      | cons first rest =>
          rw [tableTargets, tableSlots]
          split <;> rw [List.map_cons, ih] <;> rfl

theorem tableSlots_length (key : Int) (count : Nat) (cases : List (Int32 × L)) :
    (tableSlots key count cases).length = count := by
  induction count generalizing key cases with
  | zero => rfl
  | succ count ih =>
      cases cases with
      | nil => rw [tableSlots, List.length_cons, ih]
      | cons first rest =>
          rw [tableSlots]
          split <;> rw [List.length_cons, ih]

/-- A case is only ever found in the slot of its key. -/
theorem toInt_of_tableSlots {key : Int} {count : Nat} {cases : List (Int32 × L)} {k : Nat}
    {c : Int32 × L} (found : (tableSlots key count cases)[k]? = some (some c)) :
    c.1.toInt = key + k := by
  -- Behind the first slot, the slots are those of the keys from the next one on.
  have behind {key : Int} {k : Nat} (next : c.1.toInt = key + 1 + k) :
      c.1.toInt = key + (k + 1 : Nat) := by omega
  induction count generalizing key cases k with
  | zero => cases found
  | succ count ih =>
      cases cases with
      | nil =>
          cases k with
          | zero => cases found
          | succ k => exact behind (ih found)
      | cons first rest =>
          rw [tableSlots] at found
          split at found
          · rename_i here
            cases k with
            | zero =>
                cases found
                rw [here, Int.natCast_zero, Int.add_zero]
            | succ k => exact behind (ih found)
          · cases k with
            | zero => cases found
            | succ k => exact behind (ih found)

/-- Cases whose keys ascend within the range of a table all find their slots, each of them once and
in their order. -/
theorem filterMap_tableSlots {key : Int} {count : Nat} {cases : List (Int32 × L)}
    (ascending : (cases.map (·.1)).Pairwise (· < ·))
    (within : ∀ c ∈ cases, key ≤ c.1.toInt ∧ c.1.toInt < key + count) :
    (tableSlots key count cases).filterMap id = cases := by
  induction count generalizing key cases with
  | zero =>
      cases cases with
      | nil => rfl
      | cons first rest =>
          have := within first (.head _)
          omega
  | succ count ih =>
      cases cases with
      | nil =>
          rw [tableSlots, List.filterMap_cons_none rfl]
          exact ih .nil nofun
      | cons first rest =>
          obtain ⟨least, ascending_rest⟩ := List.pairwise_cons.mp ascending
          have above (c : Int32 × L) (later : c ∈ rest) : first.1.toInt < c.1.toInt :=
            Int32.lt_iff_toInt_lt.mp (least c.1 (List.mem_map_of_mem later))
          rw [tableSlots]
          split
          · rename_i here
            rw [List.filterMap_cons_some (by rfl), ih ascending_rest fun c later => ?_]
            have := above c later
            have := within c (.tail _ later)
            omega
          · rename_i gap
            rw [List.filterMap_cons_none rfl]
            refine ih ascending fun c mem => ?_
            have := within c mem
            have := within first (.head _)
            obtain rfl | later := List.mem_cons.mp mem
            · omega
            · have := above c later
              omega

/-- A table for cases: it reaches from the least to the greatest key, with one target for each key
between them. In their order and each of them once, the cases take the slots of their keys. -/
structure TableFor (default : L) (cases : List (Int32 × L)) (low high : Int32)
    (targets : List L) : Prop where
  first : (cases.map (·.1)).head? = some low
  last : (cases.map (·.1)).getLast? = some high
  length_eq : (targets.length : Int) = high.toInt - low.toInt + 1
  taken : ∃ slots : List (Option (Int32 × L)), targets = slots.map (slotTarget default) ∧
    slots.filterMap id = cases ∧
    ∀ (k : Nat) (c : Int32 × L), slots[k]? = some (some c) → c.1.toInt = low.toInt + k

theorem ascending_bounds {keys : List Int32} {low high : Int32}
    (ascending : keys.Pairwise (· < ·)) (first : keys.head? = some low)
    (last : keys.getLast? = some high) :
    ∀ key ∈ keys, low.toInt ≤ key.toInt ∧ key.toInt ≤ high.toInt := by
  intro key mem
  constructor
  · obtain ⟨rest, rfl⟩ := List.head?_eq_some_iff.mp first
    obtain rfl | later := List.mem_cons.mp mem
    · exact Int.le_refl _
    · have lt := (List.pairwise_cons.mp ascending).1 key later
      exact Int.le_of_lt (Int32.lt_iff_toInt_lt.mp lt)
  · obtain ⟨before, rfl⟩ := List.getLast?_eq_some_iff.mp last
    obtain earlier | same := List.mem_append.mp mem
    · have lt := (List.pairwise_append.mp ascending).2.2 key earlier high (.head _)
      exact Int.le_of_lt (Int32.lt_iff_toInt_lt.mp lt)
    · cases List.mem_singleton.mp same
      exact Int.le_refl _

namespace TableFor

variable {default : L} {cases : List (Int32 × L)} {low high : Int32} {targets : List L}

theorem of_ascending (ascending : (cases.map (·.1)).Pairwise (· < ·))
    (first : (cases.map (·.1)).head? = some low)
    (last : (cases.map (·.1)).getLast? = some high) :
    TableFor default cases low high
      (tableTargets default low.toInt (high.toInt - low.toInt + 1).toNat cases) where
  first := first
  last := last
  length_eq := by
    have := (ascending_bounds ascending first last low (List.mem_of_mem_head? first)).2
    rw [tableTargets_eq_map, List.length_map, tableSlots_length]
    omega
  taken := by
    refine ⟨_, tableTargets_eq_map .., filterMap_tableSlots ascending fun c mem => ?_,
      fun k c found => toInt_of_tableSlots found⟩
    have := ascending_bounds ascending first last c.1 (List.mem_map_of_mem mem)
    omega

theorem route?_of_case (table : TableFor default cases low high targets) {key : Int32} {label : L}
    (mem : (key, label) ∈ cases) :
    (Instr.tableSwitch low default targets).route? key = some label := by
  obtain ⟨slots, rfl, taken, placed⟩ := table.taken
  rw [← taken] at mem
  obtain ⟨slot, among, rfl⟩ := List.mem_filterMap.mp mem
  obtain ⟨k, found⟩ := List.mem_iff_getElem?.mp among
  refine Instr.route?_of_slot (placed k _ found) ?_
  rw [List.getElem?_map, found]
  rfl

theorem route?_of_no_case (table : TableFor default cases low high targets) {key : Int32}
    (missing : key ∉ cases.map (·.1)) :
    (Instr.tableSwitch low default targets).route? key = some default := by
  by_cases inside : low.toInt ≤ key.toInt ∧ key.toInt < low.toInt + targets.length
  · obtain ⟨slots, rfl, taken, placed⟩ := table.taken
    have lt : (key.toInt - low.toInt).toNat < slots.length := by
      rw [List.length_map] at inside
      omega
    have found := List.getElem?_eq_getElem lt
    have distance : key.toInt = low.toInt + (key.toInt - low.toInt).toNat := by omega
    refine Instr.route?_of_slot distance ?_
    rw [List.getElem?_map, found]
    cases slot : slots[(key.toInt - low.toInt).toNat] with
    | none => rfl
    | some c =>
        rw [slot] at found
        have same : c.1 = key := by
          refine Int32.toInt_inj.mp ?_
          have := placed _ c found
          omega
        refine absurd ?_ missing
        rw [← taken, ← same]
        exact List.mem_map_of_mem (List.mem_filterMap.mpr ⟨_, List.mem_of_getElem? found, rfl⟩)
  · exact Instr.route?_of_no_slot (by omega)

/-- The table and a lookup among the cases send every key to the same target. -/
theorem agrees (table : TableFor default cases low high targets)
    (ascending : (cases.map (·.1)).Pairwise (· < ·)) (key : Int32) :
    (Instr.tableSwitch low default targets).route? key =
      (Instr.lookupSwitch default cases).route? key := by
  by_cases known : key ∈ cases.map (·.1)
  · obtain ⟨⟨_, label⟩, mem, rfl⟩ := List.mem_map.mp known
    rw [table.route?_of_case mem, Instr.route?_of_case (ascending.imp Int32.ne_of_lt) mem]
  · rw [table.route?_of_no_case known, Instr.route?_of_no_case known]

end TableFor

open Emitter in
/-- The two encodings of a switch route alike. Given cases whose keys ascend, with any gaps between
them, the jump table that an emitter is asked for has one target for each key from the least to the
greatest; it sends a key to the label of its case and every other key to the default, as the lookup
does, and a frame that runs into one of them goes on as if it had run into the other. -/
theorem emitTokenSwitch_agrees {σ O : Type} [Emitter σ L O] (default : L)
    (cases : List (Int32 × L)) (nonempty : cases ≠ [])
    (ascending : (cases.map (·.1)).Pairwise (· < ·)) :
    ∃ low high targets, TableFor default cases low high targets ∧
      (emitTokenSwitch .table default cases : Emit σ Unit) =
        perform (.tableSwitch low default targets) ∧
      (emitTokenSwitch .lookup default cases : Emit σ Unit) =
        perform (.lookupSwitch default cases) ∧
      (∀ key, (Instr.tableSwitch low default targets).route? key =
          (Instr.lookupSwitch default cases).route? key ∧
        (∀ label, (key, label) ∈ cases →
          (Instr.tableSwitch low default targets).route? key = some label) ∧
        (key ∉ cases.map (·.1) →
          (Instr.tableSwitch low default targets).route? key = some default)) ∧
      ∀ (position : L → Nat) (h : Hierarchy) (f : Frame),
        f.exec h ((Instr.tableSwitch low default targets).map position) =
          f.exec h ((Instr.lookupSwitch default cases).map position) := by
  obtain ⟨c, rest, rfl⟩ := List.exists_cons_of_ne_nil nonempty
  obtain ⟨high, last⟩ : ∃ high, ((c :: rest).map (·.1)).getLast? = some high :=
    ⟨_, List.getLast?_eq_some_getLast (List.cons_ne_nil _ _)⟩
  have table : TableFor default (c :: rest) c.1 high _ := .of_ascending ascending rfl last
  have agrees := table.agrees ascending
  refine ⟨c.1, high, _, table, ?_, rfl, fun key => ⟨agrees key, fun label => table.route?_of_case,
    table.route?_of_no_case⟩, fun position h f => ?_⟩
  · unfold emitTokenSwitch
    simp only [last]
    rfl
  · refine f.exec_congr h _ _ (fun key => ?_) fun key => ?_
    · exact ⟨_, rfl⟩
    · rw [Instr.route?_map, Instr.route?_map, agrees key]

/-! Cases at both ends of the range of words: the table has a slot for every word. -/

def distantCases : List (Int32 × Nat) := [(-2147483648, 10), (-1, 11), (2147483647, 12)]

open Emitter in
theorem emitTokenSwitch_agrees_of_distant :
    distantCases ≠ [] ∧ (distantCases.map (·.1)).Pairwise (· < ·) ∧
      ∃ targets, (emitTokenSwitch .table 9 distantCases : Emit Recorder Unit) =
          perform (.tableSwitch (-2147483648) 9 targets) ∧
        targets.length = 4294967296 ∧
        (Instr.tableSwitch (-2147483648) 9 targets).route? (-1) = some 11 ∧
        (Instr.tableSwitch (-2147483648) 9 targets).route? 0 = some 9 ∧
        (Instr.tableSwitch (-2147483648) 9 targets).route? 2147483647 = some 12 := by
  have nonempty : distantCases ≠ [] := List.cons_ne_nil _ _
  have ascending : (distantCases.map (·.1)).Pairwise (· < ·) := by decide
  obtain ⟨low, high, targets, table, emits, -, routes, -⟩ :=
    emitTokenSwitch_agrees (σ := Recorder) 9 distantCases nonempty ascending
  cases table.first
  cases table.last
  have length_eq := table.length_eq
  refine ⟨nonempty, ascending, targets, emits, ?_, ?_, ?_, ?_⟩
  · change (targets.length : Int) = 2147483647 - -2147483648 + 1 at length_eq
    omega
  · exact (routes (-1)).2.1 11 (by decide)
  · exact (routes 0).2.2 (by decide)
  · exact (routes 2147483647).2.1 12 (by decide)

end TokenDispatch
