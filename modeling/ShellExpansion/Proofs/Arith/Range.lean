import Mathlib.Tactic.Linarith
import Mathlib.Tactic.SplitIfs
import ShellExpansion.Arith.Operator

/-! # The range of arithmetic

Every operator gives an integer of the signed 64-bit range for operands from it (`BinaryOp.fits`,
`UnaryOp.fits`), most of them for any operands: the sums, differences, products and quotients are
wrapped, and powers are wrapped at every step.  The range has the integers of words of 64 bits:
wrapping takes an integer to its word (`wrap_eq_toInt`), and the bits of integers of the range are
those of their words (`andBits_toInt`, `orBits_toInt`, `xorBits_toInt`). -/

namespace ShellExpansion.Arith

/-- The integer is in the signed 64-bit range. -/
def Fits (n : Int) : Prop := -2 ^ 63 ≤ n ∧ n < 2 ^ 63

instance (n : Int) : Decidable (Fits n) := inferInstanceAs (Decidable (_ ∧ _))

variable {m n : Int}

theorem fits_toInt (bits : BitVec 64) : Fits bits.toInt := ⟨bits.le_toInt, bits.toInt_lt⟩

/-- **Wrapping takes an integer to its word.** -/
theorem wrap_eq_toInt (n : Int) : wrap n = (BitVec.ofInt 64 n).toInt := by
  rw [BitVec.toInt_ofInt, Int.bmod_def, wrap, lowest, modulus]
  split_ifs <;> omega

theorem fits_wrap (n : Int) : Fits (wrap n) := by
  rw [wrap_eq_toInt]
  exact fits_toInt _

/-- Wrapping leaves the range alone. -/
theorem wrap_of_fits (h : Fits n) : wrap n = n := by
  obtain ⟨hlow, hhigh⟩ := h
  unfold wrap lowest modulus
  omega

/-- Every integer of the range is that of a word. -/
theorem exists_toInt (h : Fits n) : ∃ word : BitVec 64, word.toInt = n :=
  ⟨BitVec.ofInt 64 n, (wrap_eq_toInt n).symm.trans (wrap_of_fits h)⟩

/-- A number may be wrapped before its sign is changed and wrapped again. -/
theorem wrap_neg_wrap (n : Int) : wrap (-wrap n) = wrap (-n) := by
  rw [wrap_eq_toInt, wrap_eq_toInt, wrap_eq_toInt, BitVec.ofInt_neg, BitVec.ofInt_neg,
    BitVec.ofInt_toInt]

/-! ### Bits -/

section bits

variable (x y : BitVec 64)

theorem toInt_of_msb_eq_false {x : BitVec 64} (h : x.msb = false) : x.toInt = .ofNat x.toNat :=
  BitVec.toInt_eq_toNat_of_msb h

/-- A negative word has the bits that its complement does not have. -/
theorem toInt_of_msb_eq_true {x : BitVec 64} (h : x.msb = true) :
    x.toInt = .negSucc (~~~x).toNat := by
  have hlt := x.isLt
  rw [BitVec.toInt_eq_msb_cond, if_pos h, BitVec.toNat_not, Int.negSucc_eq]
  omega

theorem toNat_clearBits : clearBits x.toNat y.toNat = (x &&& ~~~y).toNat := by
  have hclear : x &&& ~~~y = x ^^^ (x &&& y) := by
    ext i hi
    simp only [BitVec.getElem_and, BitVec.getElem_not, BitVec.getElem_xor]
    cases x[i] <;> cases y[i] <;> rfl
  rw [hclear, BitVec.toNat_xor, BitVec.toNat_and, clearBits]

theorem andBits_toInt : andBits x.toInt y.toInt = (x &&& y).toInt := by
  have hmsb : (x &&& y).msb = (x.msb && y.msb) := BitVec.msb_and
  cases hx : x.msb <;> cases hy : y.msb <;> rw [hx, hy] at hmsb
  · rw [toInt_of_msb_eq_false hx, toInt_of_msb_eq_false hy, toInt_of_msb_eq_false hmsb, andBits,
      BitVec.toNat_and]
  · rw [toInt_of_msb_eq_false hx, toInt_of_msb_eq_true hy, toInt_of_msb_eq_false hmsb, andBits,
      toNat_clearBits, BitVec.not_not]
  · rw [toInt_of_msb_eq_true hx, toInt_of_msb_eq_false hy, toInt_of_msb_eq_false hmsb, andBits,
      toNat_clearBits, BitVec.not_not, BitVec.and_comm]
  · rw [toInt_of_msb_eq_true hx, toInt_of_msb_eq_true hy, toInt_of_msb_eq_true hmsb, andBits,
      BitVec.not_and, BitVec.toNat_or]

theorem orBits_toInt : orBits x.toInt y.toInt = (x ||| y).toInt := by
  have hmsb : (x ||| y).msb = (x.msb || y.msb) := BitVec.msb_or
  cases hx : x.msb <;> cases hy : y.msb <;> rw [hx, hy] at hmsb
  · rw [toInt_of_msb_eq_false hx, toInt_of_msb_eq_false hy, toInt_of_msb_eq_false hmsb, orBits,
      BitVec.toNat_or]
  · rw [toInt_of_msb_eq_false hx, toInt_of_msb_eq_true hy, toInt_of_msb_eq_true hmsb, orBits,
      toNat_clearBits, BitVec.not_or, BitVec.and_comm]
  · rw [toInt_of_msb_eq_true hx, toInt_of_msb_eq_false hy, toInt_of_msb_eq_true hmsb, orBits,
      toNat_clearBits, BitVec.not_or]
  · rw [toInt_of_msb_eq_true hx, toInt_of_msb_eq_true hy, toInt_of_msb_eq_true hmsb, orBits,
      BitVec.not_or, BitVec.toNat_and]

theorem xorBits_toInt : xorBits x.toInt y.toInt = (x ^^^ y).toInt := by
  have hmsb : (x ^^^ y).msb = (x.msb ^^ y.msb) := BitVec.msb_xor
  cases hx : x.msb <;> cases hy : y.msb <;> rw [hx, hy] at hmsb
  · rw [toInt_of_msb_eq_false hx, toInt_of_msb_eq_false hy, toInt_of_msb_eq_false hmsb, xorBits,
      BitVec.toNat_xor]
  · rw [toInt_of_msb_eq_false hx, toInt_of_msb_eq_true hy, toInt_of_msb_eq_true hmsb, xorBits,
      ← BitVec.toNat_xor, BitVec.not_xor_right]
  · rw [toInt_of_msb_eq_true hx, toInt_of_msb_eq_false hy, toInt_of_msb_eq_true hmsb, xorBits,
      ← BitVec.toNat_xor, BitVec.not_xor_left]
  · rw [toInt_of_msb_eq_true hx, toInt_of_msb_eq_true hy, toInt_of_msb_eq_false hmsb, xorBits,
      ← BitVec.toNat_xor, ← BitVec.not_xor_left, ← BitVec.not_xor_right, BitVec.not_not]

end bits

theorem fits_ofBool (b : Bool) : Fits (ofBool b) := by
  cases b <;> decide

theorem BinaryOp.fits_wrappedPow (base : Int) (exponent : Nat) :
    Fits (wrappedPow base exponent) := by
  fun_induction wrappedPow base exponent with
  | case1 => decide
  | case2 => exact fits_wrap _
  | case3 base exponent _ half _ ih => exact ih

/-- A shift to the right brings an integer nearer to zero, or to minus one. -/
theorem fits_shiftRight (h : Fits n) (distance : Nat) : Fits (n >>> distance) := by
  obtain ⟨hlow, hhigh⟩ := h
  have hpos : (1 : Int) ≤ 2 ^ distance := by
    exact_mod_cast Nat.one_le_two_pow
  rw [Int.shiftRight_eq_div_pow]
  push_cast
  constructor
  · rw [Int.le_ediv_iff_mul_le (by omega)]
    nlinarith
  · rw [Int.ediv_lt_iff_lt_mul (by omega)]
    nlinarith

/-- **Binary operators stay in the range.** -/
theorem BinaryOp.fits {op : BinaryOp} {left right : Int} (hleft : Fits left) (hright : Fits right)
    (h : op.apply left right = .ok n) : Fits n := by
  unfold BinaryOp.apply at h
  cases op with
  | comma =>
      cases h
      exact hright
  | bitOr | bitXor | bitAnd =>
      obtain ⟨x, rfl⟩ := exists_toInt hleft
      obtain ⟨y, rfl⟩ := exists_toInt hright
      cases h
      simp only [orBits_toInt, xorBits_toInt, andBits_toInt]
      exact fits_toInt _
  | shiftLeft | add | sub | mul =>
      cases h
      exact fits_wrap _
  | shiftRight =>
      cases h
      exact fits_shiftRight hleft _
  | div | mod =>
      dsimp only at h
      split_ifs at h
      cases h
      exact fits_wrap _
  | pow =>
      dsimp only at h
      split_ifs at h
      cases h
      exact fits_wrappedPow left _
  | _ =>
      cases h
      exact fits_ofBool _

/-- **Unary operators stay in the range.** -/
theorem UnaryOp.fits (op : UnaryOp) (h : Fits n) : Fits (op.apply n) := by
  cases op with
  | neg => exact fits_wrap _
  | plus => exact h
  | not => exact fits_ofBool _
  | complement =>
      obtain ⟨hlow, hhigh⟩ := h
      show -2 ^ 63 ≤ -n - 1 ∧ -n - 1 < 2 ^ 63
      omega

theorem StepOp.fits (op : StepOp) (n : Int) : Fits (op.apply n) := by
  cases op <;> exact fits_wrap _

end ShellExpansion.Arith
