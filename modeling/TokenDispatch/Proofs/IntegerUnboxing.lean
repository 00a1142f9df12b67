import Mathlib.Data.Int.ModEq
import TokenDispatch.Proofs.Casts

/-!
Integers out of their boxes. Whatever kind is in the box, the kind that is asked for keeps the lowest
bits: the result is the one number in its range that agrees with the number in the box modulo the
range's size. So nothing is lost where the range is as wide, and a wider kind on the way changes
nothing.
-/

namespace TokenDispatch

/-- The number of bits of a kind of integer. -/
def Prim.width? : Prim → Option Nat
  | byte => some 8
  | short => some 16
  | int => some 32
  | long => some 64
  | boolean | char | float | double => none

/-- The integer that a primitive stands for. -/
def Primitive.integer? : Primitive → Option Int
  | byte n => some n.toInt
  | short n => some n.toInt
  | int n => some n.toInt
  | long n => some n.toInt
  | boolean _ | char _ | float _ | double _ => none

/-- What is left of `z` in so many bits, the topmost of which is the sign. -/
structure Truncates (width : Nat) (z x : Int) : Prop where
  lower : -2 ^ (width - 1) ≤ x
  upper : x < 2 ^ (width - 1)
  congruent : x ≡ z [ZMOD 2 ^ width]

namespace Truncates

variable {width : Nat} {x y z : Int}

theorem unique (pos : 0 < width) (first : Truncates width z x) (second : Truncates width z y) :
    x = y := by
  have size : (2 : Int) ^ width = 2 * 2 ^ (width - 1) := by
    rw [← pow_succ', Nat.sub_add_cancel pos]
  have dvd : (2 : Int) ^ width ∣ y - x := (first.congruent.trans second.congruent.symm).dvd
  have near : |y - x| < 2 ^ width := by
    rw [size, abs_lt]
    have := first.lower
    have := first.upper
    have := second.lower
    have := second.upper
    constructor <;> omega
  exact (sub_eq_zero.mp (Int.eq_zero_of_abs_lt_dvd dvd near)).symm

theorem iff_eq (pos : 0 < width) (truncates : Truncates width z x) (y : Int) :
    Truncates width z y ↔ y = x :=
  ⟨fun other => other.unique pos truncates, fun same => same ▸ truncates⟩

/-- Bits beyond those that are kept in the end may be dropped before. -/
theorem trans {narrow : Nat} (le : narrow ≤ width) (first : Truncates width z x)
    (second : Truncates narrow x y) : Truncates narrow z y :=
  ⟨second.lower, second.upper,
    second.congruent.trans (first.congruent.of_dvd (pow_dvd_pow 2 le))⟩

theorem mono {wide : Nat} (le : width ≤ wide) (kept : Truncates width z z) :
    Truncates wide z z := by
  have more : (2 : Int) ^ (width - 1) ≤ 2 ^ (wide - 1) := by
    exact_mod_cast Nat.pow_le_pow_right Nat.two_pos (Nat.sub_le_sub_right le 1)
  have := kept.lower
  have := kept.upper
  exact ⟨by omega, by omega, .refl z⟩

theorem bmod (w : Nat) (z : Int) : Truncates (w + 1) z (z.bmod (2 ^ (w + 1))) := by
  have size : ((2 ^ (w + 1) : Nat) : Int) = 2 * 2 ^ w := by
    push_cast
    exact pow_succ' 2 w
  have pos : 0 < 2 ^ (w + 1) := Nat.two_pow_pos (w + 1)
  have lower := Int.le_bmod (x := z) pos
  have upper := Int.bmod_lt (x := z) pos
  rw [size] at lower upper
  refine ⟨?_, ?_, ?_⟩
  · rw [Nat.add_sub_cancel]
    omega
  · rw [Nat.add_sub_cancel]
    omega
  · have same := Int.bmod_emod (x := z) (m := 2 ^ (w + 1))
    push_cast at same
    exact same

end Truncates

theorem Prim.width?_pos {kind : Prim} {width : Nat} (width_eq : kind.width? = some width) :
    0 < width := by
  cases kind <;> cases width_eq <;> decide

namespace Primitive

variable {p q : Primitive} {z : Int} {target : Prim}

/-- An integer primitive is in the range of its own kind. -/
theorem truncates_integer? {width : Nat} (integer : p.integer? = some z)
    (width_eq : p.kind.width? = some width) : Truncates width z z := by
  cases p with
  | boolean _ | char _ | float _ | double _ => cases integer
  | byte n | short n | int n | long n =>
      cases integer
      cases width_eq
      exact ⟨n.le_toInt, n.toInt_lt, .refl _⟩

theorem eq_of_integer? (kind_eq : p.kind = q.kind) (p_integer : p.integer? = some z)
    (q_integer : q.integer? = some z) : p = q := by
  have same := p_integer.trans q_integer.symm
  cases p with
  | boolean _ | char _ | float _ | double _ => cases p_integer
  | byte n =>
      cases q <;> cases kind_eq
      exact congrArg byte (Int8.toInt_inj.mp (Option.some.inj same))
  | short n =>
      cases q <;> cases kind_eq
      exact congrArg short (Int16.toInt_inj.mp (Option.some.inj same))
  | int n =>
      cases q <;> cases kind_eq
      exact congrArg int (Int32.toInt_inj.mp (Option.some.inj same))
  | long n =>
      cases q <;> cases kind_eq
      exact congrArg long (Int64.toInt_inj.mp (Option.some.inj same))

/-- All integers go through the widest kind, and lose nothing there. -/
theorem number?_of_integer? (integer : p.integer? = some z) :
    ∃ n : Int64, n.toInt = z ∧ ∀ target, p.convert? target = (Number.integral n).convert? target := by
  cases p with
  | boolean _ | char _ | float _ | double _ => cases integer
  | byte n =>
      cases integer
      exact ⟨n.toInt64, n.toInt_toInt64, fun _ => rfl⟩
  | short n =>
      cases integer
      exact ⟨n.toInt64, n.toInt_toInt64, fun _ => rfl⟩
  | int n =>
      cases integer
      exact ⟨n.toInt64, n.toInt_toInt64, fun _ => rfl⟩
  | long n =>
      cases integer
      exact ⟨n, rfl, fun _ => rfl⟩

end Primitive

theorem Number.convert?_integral (n : Int64) (target : Prim) (width : Nat)
    (width_eq : target.width? = some width) :
    ∃ q x, (integral n).convert? target = some q ∧ q.integer? = some x ∧
      Truncates width n.toInt x := by
  cases target with
  | boolean | char | float | double => cases width_eq
  | byte =>
      cases width_eq
      exact ⟨_, _, rfl, congrArg some n.toInt_toInt8, .bmod 7 n.toInt⟩
  | short =>
      cases width_eq
      exact ⟨_, _, rfl, congrArg some n.toInt_toInt16, .bmod 15 n.toInt⟩
  | int =>
      cases width_eq
      exact ⟨_, _, rfl, congrArg some n.toInt_toInt32, .bmod 31 n.toInt⟩
  | long =>
      cases width_eq
      exact ⟨_, _, rfl, rfl, n.le_toInt, n.toInt_lt, .refl _⟩

namespace Value

variable {p : Primitive} {z : Int} {target : Prim} {width : Nat}

theorem unbox_integer (integer : p.integer? = some z) (width_eq : target.width? = some width) :
    ∃ q x, (boxed p).unbox target = .ok q ∧ q.kind = target ∧ q.integer? = some x ∧
      Truncates width z x := by
  obtain ⟨n, rfl, converts⟩ := p.number?_of_integer? integer
  obtain ⟨q, x, converted, value, truncates⟩ := Number.convert?_integral n target width width_eq
  have unboxed : (boxed p).unbox target = .ok q := by rw [unbox_boxed, converts, converted]
  exact ⟨q, x, unboxed, (boxed p).unbox_kind target q unboxed, value, truncates⟩

/-- An integer of any kind comes out of its box as the kind that is asked for, and is the one number
in the range of that kind that agrees with it modulo the size of the range; so it is kept where the
range is as wide as its own. To go through a box of another kind, no narrower than the last, makes no
difference. And all that is in a box, single floating numbers apart, comes out as it went in. -/
theorem unbox_truncates :
    (∀ (p : Primitive) (z : Int) (target : Prim) (width : Nat), p.integer? = some z →
      target.width? = some width →
      ∃ q x, (boxed p).unbox target = .ok q ∧ q.kind = target ∧ q.integer? = some x ∧
        (∀ y, Truncates width z y ↔ y = x) ∧
        ∀ own, p.kind.width? = some own → own ≤ width → x = z) ∧
    (∀ (p : Primitive) (z : Int) (via target : Prim) (wide narrow : Nat), p.integer? = some z →
      via.width? = some wide → target.width? = some narrow → narrow ≤ wide →
      (do
        let q ← (boxed p).unbox via
        (boxed q).unbox target) = (boxed p).unbox target) ∧
    ∀ p : Primitive, p.kind ≠ .float → (boxed p).unbox p.kind = .ok p := by
  refine ⟨fun p z target width integer width_eq => ?_,
    fun p z via target wide narrow integer wide_eq narrow_eq le => ?_, fun p other => ?_⟩
  · obtain ⟨q, x, unboxed, kind_eq, value, truncates⟩ := unbox_integer integer width_eq
    have pos := target.width?_pos width_eq
    refine ⟨q, x, unboxed, kind_eq, value, truncates.iff_eq pos, fun own own_eq le => ?_⟩
    exact truncates.unique pos ((p.truncates_integer? integer own_eq).mono le)
  · obtain ⟨q, x, first, -, middle, kept⟩ := unbox_integer integer wide_eq
    obtain ⟨r, y, second, second_kind, value, rest⟩ := unbox_integer middle narrow_eq
    obtain ⟨s, y', direct, direct_kind, value', whole⟩ := unbox_integer integer narrow_eq
    have same : y = y' := (kept.trans le rest).unique (target.width?_pos narrow_eq) whole
    rw [first, direct]
    subst same
    rw [r.eq_of_integer? (second_kind.trans direct_kind.symm) value value'] at second
    exact second
  · rw [unbox_boxed]
    cases p with
    | float _ => exact absurd rfl other
    | boolean _ | char _ | long _ | double _ => rfl
    | byte n | short n | int n =>
        simp only [Primitive.convert?, Primitive.kind, Primitive.number?, Option.bind_some,
          Number.convert?, Int8.toInt8_toInt64, Int16.toInt16_toInt64, Int32.toInt32_toInt64]

/-- The lowest byte of 2 ^ 32 + 200 is that of 200, which is -56 with a sign; by way of an integer
with 32 bits it is the same one, and with all of its 64 bits the number is itself. A character is
not a number, and comes out of its box as it went in. -/
theorem unbox_truncates_of_long :
    (∀ y, Truncates 8 4294967496 y ↔ y = -56) ∧
    (∃ q, (boxed (.long 4294967496)).unbox .long = .ok q ∧ q.integer? = some 4294967496) ∧
    (do
      let q ← (boxed (.long 4294967496)).unbox .int
      (boxed q).unbox .byte) = .ok (.byte (-56)) ∧
    (boxed (.char 'z')).unbox .char = .ok (.char 'z') := by
  have integer : (Primitive.long 4294967496).integer? = some 4294967496 := rfl
  have narrow : (boxed (.long 4294967496)).unbox .byte = .ok (.byte (-56)) := rfl
  obtain ⟨out, through, back⟩ := unbox_truncates
  refine ⟨?_, ?_, ?_, back (.char 'z') (by decide)⟩
  · obtain ⟨q, x, unboxed, -, value, only, -⟩ := out _ _ .byte 8 integer rfl
    cases narrow.symm.trans unboxed
    cases value
    exact only
  · obtain ⟨q, x, unboxed, -, value, -, exact_when_wide⟩ := out _ _ .long 64 integer rfl
    rw [exact_when_wide 64 rfl le_rfl] at value
    exact ⟨q, unboxed, value⟩
  · exact (through _ _ .int .byte 32 8 integer rfl rfl (by decide)).trans narrow

end Value

end TokenDispatch
