import TokenDispatch.Ty

/-!
Methods that a dispatcher routes to, and the tokens that stand for them. A token is a positive
number, and those handed out for a position in a list also fit a switch key.
-/

namespace TokenDispatch

@[ext]
structure Token where
  value : UInt32
  value_ne_zero : value ≠ 0
deriving DecidableEq

namespace Token

def ofUInt32? (n : UInt32) : Option Token :=
  if h : n ≠ 0 then some ⟨n, h⟩ else none

/-- The greatest switch key, and so the greatest number of methods. -/
def limit : Nat := 2147483647

/-- The token of the method at a position: one more, as long as that is a switch key. -/
def ofPosition? (position : Nat) : Option Token :=
  if position < limit then ofUInt32? (.ofNat (position + 1)) else none

def key (t : Token) : Int32 := t.value.toInt32

/-- The number of a position is not too great for a token. -/
theorem toNat_ofNat_succ {position : Nat} (low : position < limit) :
    (UInt32.ofNat (position + 1)).toNat = position + 1 :=
  UInt32.toNat_ofNat_of_lt' (by simp only [limit, UInt32.size] at *; omega)

theorem ofPosition?_of_lt {position : Nat} (low : position < limit) :
    ∃ t, ofPosition? position = some t ∧ t.value = .ofNat (position + 1) := by
  have nonzero : UInt32.ofNat (position + 1) ≠ 0 := by
    intro zero
    have value := toNat_ofNat_succ low
    rw [zero] at value
    cases value
  exact ⟨⟨_, nonzero⟩, by rw [ofPosition?, if_pos low, ofUInt32?, dif_pos nonzero], rfl⟩

theorem ofPosition?_of_le {position : Nat} (high : limit ≤ position) :
    ofPosition? position = none :=
  if_neg (Nat.not_lt.mpr high)

theorem ofPosition?_eq_some_iff {position : Nat} {t : Token} :
    ofPosition? position = some t ↔ t.value.toNat = position + 1 ∧ position < limit := by
  constructor
  · intro found
    obtain low | high := Nat.lt_or_ge position limit
    · obtain ⟨u, found', value⟩ := ofPosition?_of_lt low
      cases found'.symm.trans found
      exact ⟨by rw [value, toNat_ofNat_succ low], low⟩
    · rw [ofPosition?_of_le high] at found
      cases found
  · rintro ⟨value, low⟩
    obtain ⟨u, found, value'⟩ := ofPosition?_of_lt low
    have same : u = t := by
      refine Token.ext (UInt32.toNat_inj.mp ?_)
      rw [value', toNat_ofNat_succ low, value]
    exact same ▸ found

def text (t : Token) : String := toString t.value.toNat

end Token

inductive CallShape where
  /-- No receiver; the call is on the declaring type. -/
  | static
  | virtual
  | interface
deriving DecidableEq

structure Method where
  name : String
  declaring : Ty
  /-- The interface that calls go through in place of the declaring type. -/
  interface : Option Ty := none
  params : List Ty
  ret : Ty
  isStatic : Bool := false
  token : Option Token := none
deriving DecidableEq

namespace Method

def viaInterface (m : Method) (name : String) : Method :=
  { m with interface := some (.named name) }

/-- The key a caller passes for this method. Keys start at `1`, so `0` reaches the fallback. -/
def key (m : Method) : Int32 := (m.token.map Token.key).getD 0

/-- How the method is called; an interface outweighs the static mark. -/
def shape (m : Method) : CallShape :=
  if m.interface.isSome then .interface
  else if m.isStatic then .static
  else .virtual

/-- The type the call is made on. -/
def target (m : Method) : Ty := m.interface.getD m.declaring

def signature (m : Method) : Signature := ⟨m.params, m.ret⟩

def text (m : Method) : String :=
  (if m.isStatic then "static " else "") ++ m.declaring.text ++ "." ++ m.name ++ m.signature.text

end Method

end TokenDispatch
