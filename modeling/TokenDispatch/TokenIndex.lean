import TokenDispatch.EmitError
import TokenDispatch.Method

/-!
The assignment of tokens to a list of methods: one token for each position, in order, starting at
one. Whatever tokens the methods carried before makes no difference.
-/

namespace TokenDispatch

structure TokenEntry where
  token : Token
  /-- Where the method stands in the list. -/
  position : Nat
deriving DecidableEq

structure TokenIndex where
  entries : List TokenEntry := []
deriving DecidableEq

namespace TokenIndex

def size (index : TokenIndex) : Nat := index.entries.length

def tokenAt? (index : TokenIndex) (position : Nat) : Option Token :=
  index.entries[position]?.map (·.token)

/-- Halves `size` entries from `base` on until one is left: among ascending entries, the last that
is not above the token, or the first of all where none is. -/
def bisect (entries : List TokenEntry) (token : Token) (base size : Nat) : Nat :=
  if size ≤ 1 then base
  else
    let middle := base + size / 2
    let above := entries[middle]?.any fun entry => token.value < entry.token.value
    bisect entries token (if above then base else middle) (size - size / 2)
termination_by size

/-- Where the method with a token stands, by a search that takes the entries to ascend. -/
def positionOf? (index : TokenIndex) (token : Token) : Option Nat :=
  let nearest := index.entries[bisect index.entries token 0 index.size]?
  (nearest.filter (·.token == token)).map (·.position)

def keys (index : TokenIndex) : List Int32 := index.entries.map (·.token.key)

end TokenIndex

/-- Writes into methods, of which there are `count` in the whole list, the tokens of their positions
from `position` on. The first position without a token ends that, and the methods from there on stay
as they are. -/
def numberFrom (count position : Nat) :
    List Method → Except EmitError (List TokenEntry) × List Method
  | [] => (.ok [], [])
  | m :: rest =>
      match Token.ofPosition? position with
      | none => (.error (.tooManyMethods count), m :: rest)
      | some token =>
          let (entries, rest) := numberFrom count (position + 1) rest
          (entries.map (⟨token, position⟩ :: ·), { m with token := some token } :: rest)

/-- The index of a list and the list with its tokens, which are written even when the list is too
long for an index. -/
def numberMethods (methods : List Method) : Except EmitError TokenIndex × List Method :=
  let (entries, methods) := numberFrom methods.length 0 methods
  (entries.map (⟨·⟩), methods)

/-! The same without the recursion. -/

def TokenEntry.ofPosition? (position : Nat) : Option TokenEntry :=
  (Token.ofPosition? position).map (⟨·, position⟩)

theorem TokenEntry.ofPosition?_of_token {position : Nat} {token : Token}
    (found : Token.ofPosition? position = some token) :
    ofPosition? position = some ⟨token, position⟩ := by
  rw [ofPosition?, found]
  rfl

/-- The entries of `count` positions, as far as there are tokens for them. -/
def TokenIndex.ofCount (count : Nat) : TokenIndex :=
  ⟨(List.range count).filterMap TokenEntry.ofPosition?⟩

/-- The method with the token of a position; it stays as it is when there is no token to get. -/
def Method.mark (m : Method) (position : Nat) : Method :=
  match Token.ofPosition? position with
  | some token => { m with token := some token }
  | none => m

def markTokens (methods : List Method) : List Method :=
  methods.zipIdx.map fun (m, position) => m.mark position

theorem map_mark_of_le (position : Nat) (methods : List Method) (high : Token.limit ≤ position) :
    ((methods.zipIdx position).map fun (m, position) => m.mark position) = methods := by
  induction methods generalizing position with
  | nil => rfl
  | cons m rest ih =>
      rw [List.zipIdx_cons, List.map_cons, ih (position + 1) (Nat.le_succ_of_le high)]
      dsimp only
      rw [Method.mark, Token.ofPosition?_of_le high]

/-- There is a token for each position below the limit, and none from there on. -/
theorem numberFrom_eq (count position : Nat) (methods : List Method)
    (le : position ≤ Token.limit) :
    numberFrom count position methods =
      (if position + methods.length ≤ Token.limit then
          .ok ((List.range' position methods.length).filterMap TokenEntry.ofPosition?)
        else .error (.tooManyMethods count),
       (methods.zipIdx position).map fun (m, position) => m.mark position) := by
  induction methods generalizing position with
  | nil => simp [numberFrom, le]
  | cons m rest ih =>
      rw [numberFrom]
      obtain low | high := Nat.lt_or_ge position Token.limit
      · obtain ⟨token, found, -⟩ := Token.ofPosition?_of_lt low
        have entry := TokenEntry.ofPosition?_of_token found
        have marked : m.mark position = { m with token := some token } := by
          rw [Method.mark, found]
        rw [found, ih (position + 1) low, List.length_cons, List.range'_succ, List.zipIdx_cons,
          List.map_cons, List.filterMap_cons, entry, Nat.add_right_comm, Nat.add_assoc]
        dsimp only
        rw [marked]
        split <;> rfl
      · have long : ¬ position + (m :: rest).length ≤ Token.limit := by
          rw [List.length_cons]
          omega
        rw [Token.ofPosition?_of_le high, map_mark_of_le position _ high, if_neg long]

theorem numberMethods_eq (methods : List Method) :
    numberMethods methods =
      (if methods.length ≤ Token.limit then .ok (.ofCount methods.length)
        else .error (.tooManyMethods methods.length),
       markTokens methods) := by
  rw [numberMethods, numberFrom_eq _ 0 methods (Nat.zero_le _), Nat.zero_add, TokenIndex.ofCount,
    markTokens, List.range_eq_range']
  dsimp only
  split <;> rfl

end TokenDispatch
