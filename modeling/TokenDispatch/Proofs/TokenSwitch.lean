import TokenDispatch.Proofs.RoutineLayout

/-!
The switch on the tokens of a list. Its keys are those of the positions, in ascending order and
without a gap, so that a jump table has one slot for each of them, and a lookup is added as it is
written.
-/

namespace TokenDispatch

open Script

variable {τ ρ L : Type}

/-- The key that stands for the method at a position. -/
def positionKey (position : Nat) : Int32 := .ofNat (position + 1)

def positionKeys (count : Nat) : List Int32 := (List.range count).map positionKey

theorem positionKeys_length (count : Nat) : (positionKeys count).length = count := by
  simp [positionKeys]

theorem positionKey_toInt (position : Nat) (h : position < Token.limit) :
    (positionKey position).toInt = position + 1 := by
  rw [Token.limit] at h
  rw [positionKey, Int32.toInt_ofNat_of_lt (by omega)]
  rfl

theorem Token.ofPosition?_key (position : Nat) (h : position < limit) :
    ∃ t, ofPosition? position = some t ∧ t.key = positionKey position := by
  obtain ⟨t, found, value⟩ := ofPosition?_of_lt h
  exact ⟨t, found, by rw [key, value]; rfl⟩

namespace TokenIndex

theorem map_some_entries_ofCount (count : Nat) (h : count ≤ Token.limit) :
    (ofCount count).entries.map some = (List.range count).map TokenEntry.ofPosition? := by
  have low : ∀ position ∈ List.range count, position < Token.limit := fun position mem =>
    Nat.lt_of_lt_of_le (List.mem_range.mp mem) h
  unfold ofCount
  dsimp only
  revert low
  generalize List.range count = positions
  intro low
  induction positions with
  | nil => rfl
  | cons position rest ih =>
      obtain ⟨t, found, -⟩ := Token.ofPosition?_of_lt (low _ (.head _))
      have entry := TokenEntry.ofPosition?_of_token found
      rw [List.filterMap_cons, List.map_cons, entry]
      exact congrArg (some _ :: ·) (ih fun p mem => low p (.tail _ mem))

/-- The entry of a position is the one at that position. -/
theorem entries_getElem?_ofCount (count : Nat) (h : count ≤ Token.limit) (p : Nat) :
    (ofCount count).entries[p]? = if p < count then TokenEntry.ofPosition? p else none := by
  have same := congrArg (·[p]?) (map_some_entries_ofCount count h)
  simp only [List.getElem?_map] at same
  split
  · rename_i lt
    obtain ⟨t, found, -⟩ := Token.ofPosition?_of_lt (Nat.lt_of_lt_of_le lt h)
    rw [List.getElem?_range lt, Option.map_some, TokenEntry.ofPosition?_of_token found] at same
    obtain ⟨entry, get, eq⟩ := Option.map_eq_some_iff.mp same
    rw [TokenEntry.ofPosition?_of_token found, get, eq]
  · rename_i past
    have none_ : (List.range count)[p]? = none := List.getElem?_eq_none (by simpa using past)
    rw [none_] at same
    exact Option.map_eq_none_iff.mp same

theorem entries_ofCount (count : Nat) (h : count ≤ Token.limit) :
    (ofCount count).entries.map (·.token.key) = positionKeys count := by
  refine List.ext_getElem? fun p => ?_
  rw [List.getElem?_map, entries_getElem?_ofCount count h, positionKeys, List.getElem?_map]
  split
  · rename_i lt
    obtain ⟨t, found, key⟩ := Token.ofPosition?_key p (Nat.lt_of_lt_of_le lt h)
    rw [TokenEntry.ofPosition?_of_token found, List.getElem?_range lt]
    exact congrArg some key
  · rename_i past
    rw [List.getElem?_eq_none (by simpa using past)]
    rfl

theorem keys_ofCount (count : Nat) (h : count ≤ Token.limit) :
    (ofCount count).keys = positionKeys count := entries_ofCount count h

theorem size_ofCount (count : Nat) (h : count ≤ Token.limit) : (ofCount count).size = count := by
  have := congrArg List.length (entries_ofCount count h)
  simpa [size, positionKeys] using this

end TokenIndex

/-! The switch. -/

/-- The switch on the keys of positions, in either encoding. -/
def positionSwitch (form : SwitchForm) (default : τ) (cases : List (Int32 × τ)) : Instr τ :=
  if form.prefersTable (cases.map (·.1)) then .tableSwitch 1 default (cases.map (·.2))
  else .lookupSwitch default cases

theorem positionSwitch_map (form : SwitchForm) (default : τ) (cases : List (Int32 × τ))
    (g : τ → ρ) :
    (positionSwitch form default cases).map g =
      positionSwitch form (g default) (cases.map fun c => (c.1, g c.2)) := by
  unfold positionSwitch
  simp only [List.map_map, Function.comp_def]
  split <;> simp [Instr.map]

theorem tableTargets_of_consecutive (default : L) (cases : List (Int32 × L)) (key : Int)
    (h : ∀ (k : Nat) (c : Int32 × L), cases[k]? = some c → c.1.toInt = key + k) :
    tableTargets default key cases.length cases = cases.map (·.2) := by
  induction cases generalizing key with
  | nil => rfl
  | cons c cases ih =>
      have first : c.1.toInt = key := by simpa using h 0 c rfl
      rw [List.length_cons, tableTargets, if_pos first, ih, List.map_cons]
      intro k d found
      have := h (k + 1) d found
      omega

theorem sortCases_of_ascending (cases : List (Int32 × Label))
    (h : cases.Pairwise fun c d => c.1 ≤ d.1) : Edit.sortCases cases = cases := by
  induction h with
  | nil => rfl
  | @cons c cases le _ ih =>
      change Edit.insertCase c (Edit.sortCases cases) = _
      rw [ih]
      cases cases with
      | nil => rfl
      | cons d rest => rw [Edit.insertCase, if_pos (le d (.head _))]

theorem repeated?_of_ascending (cases : List (Int32 × Label))
    (h : cases.Pairwise fun c d => c.1 < d.1) : Edit.repeated? cases = none := by
  induction h with
  | nil => rfl
  | @cons c cases lt _ ih =>
      cases cases with
      | nil => rfl
      | cons d rest => rw [Edit.repeated?, if_neg (Int32.ne_of_lt (lt d (.head _))), ih]

theorem positionKeys_ascending (count : Nat) (h : count ≤ Token.limit) :
    (positionKeys count).Pairwise (· < ·) := by
  refine List.pairwise_map.mpr (List.Pairwise.imp_of_mem ?_ List.pairwise_lt_range)
  intro i j mem_i mem_j lt
  have low_i := Nat.lt_of_lt_of_le (List.mem_range.mp mem_i) h
  have low_j := Nat.lt_of_lt_of_le (List.mem_range.mp mem_j) h
  rw [Int32.lt_iff_toInt_lt, positionKey_toInt i low_i, positionKey_toInt j low_j]
  omega

theorem SwitchForm.prefersTable_nil (form : SwitchForm) : form.prefersTable [] = false := by
  cases form <;> rfl

/-- A table of the keys of positions has no gap. -/
theorem tableTargets_of_positionKeys (default : L) (cases : List (Int32 × L)) (count : Nat)
    (low : count ≤ Token.limit) (keys : cases.map (·.1) = positionKeys count) :
    tableTargets default (1 : Int32).toInt cases.length cases = cases.map (·.2) := by
  apply tableTargets_of_consecutive
  intro k c found
  have key : (positionKeys count)[k]? = some c.1 := by
    rw [← keys, List.getElem?_map, found]
    rfl
  obtain ⟨bound, get⟩ := List.getElem?_eq_some_iff.mp key
  have k_lt : k < count := by simpa [positionKeys] using bound
  rw [← get]
  simp only [positionKeys, List.getElem_map, List.getElem_range]
  rw [positionKey_toInt k (by omega)]
  change (k : Int) + 1 = 1 + k
  omega

theorem tokenSwitch_eq (form : SwitchForm) (default : L) (cases : List (Int32 × L)) (count : Nat)
    (low : count ≤ Token.limit) (keys : cases.map (·.1) = positionKeys count) :
    tokenSwitch form default cases =
      if form.prefersTable (cases.map (·.1)) then .tableSwitch 1 default (cases.map (·.2))
      else .lookupSwitch default cases := by
  unfold tokenSwitch
  cases table : form.prefersTable (cases.map (·.1)) with
  | false => simp [table]
  | true =>
      have targets := tableTargets_of_positionKeys default cases count low keys
      cases count with
      | zero => simp [keys, positionKeys, SwitchForm.prefersTable_nil] at table
      | succ last =>
          have head : (cases.map (·.1)).head? = some 1 := by
            rw [keys, positionKeys, List.range_succ_eq_map]
            rfl
          have getLast : (cases.map (·.1)).getLast? = some (positionKey last) := by
            rw [keys, positionKeys, List.range_succ]
            simp
          have length : cases.length = last + 1 := by
            simpa [positionKeys] using congrArg List.length keys
          have slots : ((positionKey last).toInt - (1 : Int32).toInt + 1).toNat = cases.length := by
            rw [positionKey_toInt last low, length]
            change ((last : Int) + 1 - 1 + 1).toNat = last + 1
            omega
          simp only [head, getLast, table, slots, targets, if_true]

open Assembler in
/-- The switch on the keys of positions is added as it stands: its cases are in order already, and
no two of them have the same key. -/
theorem perform_tokenSwitch_iff (form : SwitchForm) (default : Label)
    (cases : List (Int32 × Label)) (count : Nat) (low : count ≤ Token.limit)
    (keys : cases.map (·.1) = positionKeys count) (a a' : Assembler) (r : OpenRoutine)
    (current : a.current = some r) :
    Succeeds (perform (tokenSwitch form default cases)) a () a' ↔
      (r.reachable = true ∧ 1 ≤ r.depth ∧
        ∀ l ∈ default :: cases.map (·.2), r.Admits (r.depth - 1) l) ∧
      a' = { a with
        current := some (r.afterSwitch (positionSwitch form default cases)
          (default :: cases.map (·.2))) } := by
  have ascending : cases.Pairwise fun c d => c.1 < d.1 := by
    rw [← List.pairwise_map (f := fun c : Int32 × Label => c.1), keys]
    exact positionKeys_ascending count low
  have sorted := sortCases_of_ascending cases (ascending.imp Int32.le_of_lt)
  have distinct := repeated?_of_ascending cases ascending
  rw [tokenSwitch_eq form default cases count low keys, positionSwitch]
  split
  · rename_i table
    have targets : cases.map (·.2) ≠ [] := by
      intro none_
      rw [List.map_eq_nil_iff] at none_
      rw [none_, List.map_nil, form.prefersTable_nil] at table
      cases table
    rw [perform_iff_extends _ rfl a a' ()]
    constructor
    · intro h
      obtain ⟨_, r', open_eq, extends_, rfl⟩ := h
      cases current.symm.trans open_eq
      cases extends_ with
      | instruct instr => cases instr
      | tableSwitch _ reachable key admits => exact ⟨⟨reachable, key, admits⟩, rfl⟩
    · intro h
      obtain ⟨⟨reachable, key, admits⟩, rfl⟩ := h
      exact ⟨r, _, current, .tableSwitch targets reachable key admits, rfl⟩
  · rw [perform_iff_extends _ rfl a a' ()]
    constructor
    · intro h
      obtain ⟨_, r', open_eq, extends_, rfl⟩ := h
      cases current.symm.trans open_eq
      cases extends_ with
      | instruct instr => cases instr
      | lookupSwitch reachable key admits _ =>
          rw [sorted]
          exact ⟨⟨reachable, key, admits⟩, rfl⟩
    · intro h
      obtain ⟨⟨reachable, key, admits⟩, rfl⟩ := h
      refine ⟨r, _, current, .lookupSwitch reachable key admits ?_, by rw [sorted]⟩
      rw [sorted]
      exact distinct

end TokenDispatch
