import TokenDispatch.Proofs.UnitLayout

/-!
The index of a list, read both ways. Positions and tokens determine each other: the token of a
position is in the entry there, and a token is found by halving, since the entries ascend. The index
and the tokens that are written into the methods agree, up to the greatest list that has an index.
-/

namespace TokenDispatch

namespace TokenIndex

def Ascending (entries : List TokenEntry) : Prop :=
  entries.Pairwise fun e f => e.token.value < f.token.value

/-- One comparison says on which side of an entry another one stands. -/
theorem above_iff {entries : List TokenEntry} (ascending : Ascending entries) {p middle : Nat}
    {entry : TokenEntry} (found : entries[p]? = some entry) (inside : middle < entries.length) :
    (entries[middle]?.any fun other => entry.token.value < other.token.value) = true ↔
      p < middle := by
  obtain ⟨bound, rfl⟩ := List.getElem?_eq_some_iff.mp found
  have ordered := List.pairwise_iff_getElem.mp ascending
  rw [List.getElem?_eq_getElem inside, Option.any_some, decide_eq_true_eq]
  constructor
  · intro above
    refine Nat.lt_of_not_le fun le => ?_
    obtain lt | rfl := Nat.lt_or_eq_of_le le
    · exact UInt32.lt_asymm above (ordered middle p inside bound lt)
    · exact UInt32.lt_irrefl _ above
  · exact ordered p middle bound inside

/-- Of two halves, the search goes on with the one that the entry of the token is in. -/
theorem bisect_eq {entries : List TokenEntry} (ascending : Ascending entries) {p : Nat}
    {entry : TokenEntry} (found : entries[p]? = some entry) (base size : Nat) (le : base ≤ p)
    (lt : p < base + size) (within : base + size ≤ entries.length) :
    bisect entries entry.token base size = p := by
  induction base, size using bisect.induct entries entry.token with
  | case1 base size one =>
      rw [bisect, if_pos one]
      omega
  | case2 base size many middle above ih =>
      have middle_eq : middle = base + size / 2 := rfl
      have side : above = true ↔ p < middle := above_iff ascending found (by omega)
      rw [bisect, if_neg many]
      change bisect entries entry.token (if above then base else middle) (size - size / 2) = p
      by_cases below : p < middle
      · rw [dif_pos (side.mpr below)] at ih
        rw [if_pos (side.mpr below)]
        exact ih le (by omega) (by omega)
      · rw [dif_neg (mt side.mp below)] at ih
        rw [if_neg (mt side.mp below)]
        exact ih (Nat.not_lt.mp below) (by omega) (by omega)

/-- In ascending entries, a token is found where its entry says. -/
theorem positionOf?_eq_some_iff {index : TokenIndex} (ascending : Ascending index.entries)
    (token : Token) (position : Nat) :
    index.positionOf? token = some position ↔ ⟨token, position⟩ ∈ index.entries := by
  rw [positionOf?, Option.map_eq_some_iff]
  constructor
  · rintro ⟨entry, nearest, rfl⟩
    obtain ⟨found, same⟩ := Option.filter_eq_some_iff.mp nearest
    cases eq_of_beq same
    exact List.mem_of_getElem? found
  · intro mem
    obtain ⟨p, found⟩ := List.getElem?_of_mem mem
    obtain ⟨bound, -⟩ := List.getElem?_eq_some_iff.mp found
    refine ⟨⟨token, position⟩, ?_, rfl⟩
    rw [bisect_eq ascending found 0 index.size (Nat.zero_le p) (by rwa [Nat.zero_add])
      (Nat.le_of_eq (Nat.zero_add _)), found]
    exact Option.filter_eq_some_iff.mpr ⟨rfl, beq_self_eq_true token⟩

/-! The index of a list that is not too long. -/

variable {count : Nat}

theorem getElem?_entries_eq_some_iff (few : count ≤ Token.limit) (p : Nat) (entry : TokenEntry) :
    (ofCount count).entries[p]? = some entry ↔
      entry.position = p ∧ entry.token.value.toNat = p + 1 ∧ p < count := by
  rw [entries_getElem?_ofCount count few, TokenEntry.ofPosition?]
  constructor
  · intro found
    split at found
    · rename_i lt
      obtain ⟨token, numbered, rfl⟩ := Option.map_eq_some_iff.mp found
      exact ⟨rfl, (Token.ofPosition?_eq_some_iff.mp numbered).1, lt⟩
    · cases found
  · rintro ⟨rfl, value, lt⟩
    rw [if_pos lt, Token.ofPosition?_eq_some_iff.mpr ⟨value, Nat.lt_of_lt_of_le lt few⟩]
    rfl

theorem mem_entries_ofCount_iff (few : count ≤ Token.limit) (token : Token) (position : Nat) :
    ⟨token, position⟩ ∈ (ofCount count).entries ↔
      token.value.toNat = position + 1 ∧ position < count := by
  rw [List.mem_iff_getElem?]
  constructor
  · rintro ⟨p, found⟩
    obtain ⟨rfl, numbered⟩ := (getElem?_entries_eq_some_iff few p _).mp found
    exact numbered
  · intro numbered
    exact ⟨position, (getElem?_entries_eq_some_iff few position _).mpr ⟨rfl, numbered⟩⟩

theorem ascending_ofCount (few : count ≤ Token.limit) : Ascending (ofCount count).entries := by
  refine List.pairwise_iff_getElem.mpr fun i j lt_i lt_j lt => ?_
  have value (p : Nat) (bound : p < (ofCount count).entries.length) :
      ((ofCount count).entries[p]).token.value.toNat = p + 1 :=
    ((getElem?_entries_eq_some_iff few p _).mp (List.getElem?_eq_getElem bound)).2.1
  rw [UInt32.lt_iff_toNat_lt, value i lt_i, value j lt_j]
  omega

theorem tokenAt?_eq_some_iff (few : count ≤ Token.limit) (p : Nat) (token : Token) :
    (ofCount count).tokenAt? p = some token ↔ token.value.toNat = p + 1 ∧ p < count := by
  rw [tokenAt?, Option.map_eq_some_iff]
  constructor
  · rintro ⟨entry, found, rfl⟩
    exact ((getElem?_entries_eq_some_iff few p entry).mp found).2
  · intro numbered
    exact ⟨⟨token, p⟩, (getElem?_entries_eq_some_iff few p _).mpr ⟨rfl, numbered⟩, rfl⟩

theorem tokenAt?_eq_none (few : count ≤ Token.limit) {p : Nat} (le : count ≤ p) :
    (ofCount count).tokenAt? p = none :=
  Option.eq_none_iff_forall_ne_some.mpr fun t found =>
    Nat.not_lt.mpr le ((tokenAt?_eq_some_iff few p t).mp found).2

theorem positionOf?_ofCount_iff (few : count ≤ Token.limit) (token : Token) (p : Nat) :
    (ofCount count).positionOf? token = some p ↔ token.value.toNat = p + 1 ∧ p < count :=
  (positionOf?_eq_some_iff (ascending_ofCount few) token p).trans
    (mem_entries_ofCount_iff few token p)

/-- An index that goes with the tokens of a list, in both directions. -/
structure Numbers (index : TokenIndex) (methods : List Method) : Prop where
  tokenAt : ∀ p < methods.length, ∃ t, index.tokenAt? p = some t ∧ t.value.toNat = p + 1
  tokenAt_none : ∀ p, methods.length ≤ p → index.tokenAt? p = none
  stored : ∀ p : Nat, index.tokenAt? p = methods[p]?.bind Method.token
  positionOf : ∀ (t : Token) (p : Nat),
    index.positionOf? t = some p ↔ t.value.toNat = p + 1 ∧ p < methods.length
  keys_ascend : index.keys.Pairwise (· < ·)
  keys_pos : ∀ key ∈ index.keys, 0 < key
  keys_getElem : ∀ p : Nat, index.keys[p]? = methods[p]?.map Method.key

end TokenIndex

theorem positionKeys_pos (count : Nat) (few : count ≤ Token.limit) :
    ∀ key ∈ positionKeys count, 0 < key := by
  intro key mem
  obtain ⟨p, low, rfl⟩ := List.mem_map.mp mem
  rw [Int32.lt_iff_toInt_lt, positionKey_toInt p (Nat.lt_of_lt_of_le (List.mem_range.mp low) few)]
  exact Int.natCast_succ_pos p

section

open TokenIndex

variable (methods : List Method) (few : methods.length ≤ Token.limit)

include few

/-- The method at a position carries the token that the index has there. -/
theorem tokenAt?_markTokens (p : Nat) :
    (ofCount methods.length).tokenAt? p = (markTokens methods)[p]?.bind Method.token := by
  obtain lt | le := Nat.lt_or_ge p methods.length
  · obtain ⟨t, value, marked⟩ :=
      markTokens_numbered methods few p _ (List.getElem?_eq_getElem lt)
    rw [marked]
    exact (tokenAt?_eq_some_iff few p t).mpr ⟨value, lt⟩
  · rw [List.getElem?_eq_none (by rwa [markTokens_length])]
    exact tokenAt?_eq_none few le

theorem keys_getElem?_markTokens (p : Nat) :
    (ofCount methods.length).keys[p]? = (markTokens methods)[p]?.map Method.key := by
  have keys : (ofCount methods.length).keys[p]? =
      ((ofCount methods.length).tokenAt? p).map Token.key := by
    rw [TokenIndex.keys, tokenAt?, List.getElem?_map, Option.map_map]
    rfl
  rw [keys, tokenAt?_markTokens methods few]
  cases found : methods[p]? with
  | none =>
      rw [markTokens_getElem?, found]
      rfl
  | some m =>
      obtain ⟨t, -, marked⟩ := markTokens_numbered methods few p m found
      rw [marked]
      rfl

/-- The index of a list that is not too long goes with the tokens that are written. -/
theorem numbers_markTokens : (ofCount methods.length).Numbers (markTokens methods) where
  tokenAt p lt := by
    rw [markTokens_length] at lt
    obtain ⟨t, value, -⟩ := markTokens_numbered methods few p _ (List.getElem?_eq_getElem lt)
    exact ⟨t, (tokenAt?_eq_some_iff few p t).mpr ⟨value, lt⟩, value⟩
  tokenAt_none p le := tokenAt?_eq_none few (markTokens_length methods ▸ le)
  stored := tokenAt?_markTokens methods few
  positionOf t p := by
    rw [markTokens_length]
    exact positionOf?_ofCount_iff few t p
  keys_ascend := by
    rw [keys_ofCount _ few]
    exact positionKeys_ascending _ few
  keys_pos := by
    rw [keys_ofCount _ few]
    exact positionKeys_pos _ few
  keys_getElem := keys_getElem?_markTokens methods few

end

/-- A list gets an index exactly if each of its positions has a token. Then the index goes with the
tokens that the methods carry; otherwise the error tells how many methods there are. -/
theorem numberMethods_numbers (methods : List Method) :
    (numberMethods methods).2.length = methods.length ∧
    (methods.length ≤ 2147483647 ∧ (∃ index, (numberMethods methods).1 = .ok index ∧
        index.Numbers (numberMethods methods).2) ∨
      2147483647 < methods.length ∧
        (numberMethods methods).1 = .error (.tooManyMethods methods.length)) := by
  rw [numberMethods_eq]
  refine ⟨markTokens_length methods, ?_⟩
  obtain many | few := Nat.lt_or_ge 2147483647 methods.length
  · exact .inr ⟨many, if_neg (Nat.not_le.mpr many)⟩
  · exact .inl ⟨few, _, if_pos few, numbers_markTokens methods few⟩

end TokenDispatch
