import Mathlib.Algebra.BigOperators.Group.List.Basic
import Mathlib.Data.BitVec
import ShellExpansion.Proofs.Arith.Range

/-! # Operators on machine words

The operators are those of a machine with words of 64 bits in two's complement
(`BinaryOp.onWords`, `UnaryOp.onWord`): integers of the signed range are words, and every operator
gives the integer of the word that the machine gives (`operators_onWords`).  The integers themselves
are unbounded: a quotient is truncated and then wrapped, a power is computed by squaring, and the
distance of a shift is a remainder of a possibly negative count. -/

namespace ShellExpansion.Arith

/-- The word of a truth value. -/
def bit (b : Bool) : BitVec 64 := if b then 1 else 0

/-- The operator as a machine carries it out on two words.  Comparisons and division take the words
as signed, a shift to the right repeats the sign, and the distance of a shift is its count modulo
64.  A power is the product of as many factors. -/
def BinaryOp.onWords (op : BinaryOp) (left right : BitVec 64) : Except ArithProblem (BitVec 64) :=
  match op with
  | comma => .ok right
  | or => .ok (bit (left != 0 || right != 0))
  | and => .ok (bit (left != 0 && right != 0))
  | bitOr => .ok (left ||| right)
  | bitXor => .ok (left ^^^ right)
  | bitAnd => .ok (left &&& right)
  | eq => .ok (bit (left == right))
  | ne => .ok (bit (left != right))
  | lt => .ok (bit (left.slt right))
  | gt => .ok (bit (right.slt left))
  | le => .ok (bit (left.sle right))
  | ge => .ok (bit (right.sle left))
  | shiftLeft => .ok (left <<< (right % 64))
  | shiftRight => .ok (left.sshiftRight' (right % 64))
  | add => .ok (left + right)
  | sub => .ok (left - right)
  | mul => .ok (left * right)
  | div => if right = 0 then .error .divisionByZero else .ok (left.sdiv right)
  | mod => if right = 0 then .error .divisionByZero else .ok (left.srem right)
  | pow =>
    if right.slt 0 then .error .negativeExponent
    else .ok ((List.replicate right.toNat left).foldr (· * ·) 1)

/-- The operator as a machine carries it out on a word. -/
def UnaryOp.onWord (op : UnaryOp) (word : BitVec 64) : BitVec 64 :=
  match op with
  | neg => -word
  | plus => word
  | not => bit (word == 0)
  | complement => ~~~word

variable {left right : Int} (x y : BitVec 64)

theorem toInt_bit (b : Bool) : (bit b).toInt = ofBool b := by
  cases b <;> rfl

theorem toInt_eq_zero_iff : x.toInt = 0 ↔ x = 0 := BitVec.toInt_inj (y := 0)

/-! ### Shifts and powers -/

/-- A count and its word leave the same remainder modulo 64. -/
theorem shiftDistance_toInt : BinaryOp.shiftDistance y.toInt = (y % 64).toNat := by
  have hnat : (y % 64).toNat = y.toNat % 64 := BitVec.toNat_umod
  have hint : y.toInt % 64 = (y.toNat : Int) % 64 := by
    rw [BitVec.toInt_eq_toNat_cond]
    split <;> omega
  rw [BinaryOp.shiftDistance, hint, hnat]
  omega

theorem wrap_shiftLeft (distance : Nat) :
    wrap (x.toInt <<< distance) = (x <<< distance).toInt := by
  have hpower : BitVec.ofInt 64 (2 ^ distance : Int) = BitVec.twoPow 64 distance := by
    rw [← BitVec.toNat_inj, BitVec.toNat_twoPow]
    norm_cast
  rw [wrap_eq_toInt, Int.shiftLeft_eq, BitVec.ofInt_mul, BitVec.ofInt_toInt, hpower,
    BitVec.shiftLeft_eq_mul_twoPow]

/-- **Squares that halve the exponent** give the product of all factors. -/
theorem wrappedPow_eq (base : Int) (exponent : Nat) :
    BinaryOp.wrappedPow base exponent = (BitVec.ofInt 64 base ^ exponent).toInt := by
  fun_induction BinaryOp.wrappedPow base exponent with
  | case1 => rfl
  | case2 base exponent _ half hodd ih =>
      have hsplit : exponent = 2 * (exponent / 2) + 1 := by omega
      rw [show half = _ from ih, wrap_eq_toInt, wrap_eq_toInt, BitVec.ofInt_mul, BitVec.ofInt_toInt,
        BitVec.ofInt_toInt, BitVec.ofInt_mul, ← pow_two, ← pow_mul, ← pow_succ', ← hsplit]
  | case3 base exponent _ half heven ih =>
      have hsplit : exponent = 2 * (exponent / 2) := by omega
      rw [show half = _ from ih, wrap_eq_toInt, BitVec.ofInt_toInt, BitVec.ofInt_mul, ← pow_two,
        ← pow_mul, ← hsplit]

/-- A product that is wrapped at every step is the product of the words. -/
theorem foldr_wrap (factor : Int) (exponent : Nat) :
    (List.replicate exponent factor).foldr (fun next product => wrap (next * product)) 1 =
      (BitVec.ofInt 64 factor ^ exponent).toInt := by
  induction exponent with
  | zero => rfl
  | succ exponent ih =>
      rw [List.replicate_succ, List.foldr_cons, ih, wrap_eq_toInt, BitVec.ofInt_mul,
        BitVec.ofInt_toInt, pow_succ']

/-! ### Operators -/

/-- **A binary operator on the integers of two words** gives the integer of the word that a machine
gives, or fails like it. -/
theorem BinaryOp.apply_toInt (op : BinaryOp) :
    op.apply x.toInt y.toInt = (op.onWords x y).map BitVec.toInt := by
  unfold BinaryOp.apply BinaryOp.onWords
  cases op with
  | comma => rfl
  | bitOr => exact congrArg Except.ok (orBits_toInt x y)
  | bitXor => exact congrArg Except.ok (xorBits_toInt x y)
  | bitAnd => exact congrArg Except.ok (andBits_toInt x y)
  | or | and | eq | ne =>
      simp only [ne_eq, toInt_eq_zero_iff, BitVec.toInt_inj]
      refine congrArg Except.ok (Eq.trans (congrArg ofBool ?_) (toInt_bit _).symm)
      simp [bne, beq_eq_decide]
  | lt | gt | le | ge => exact congrArg Except.ok (toInt_bit _).symm
  | shiftLeft =>
      show Except.ok (wrap (x.toInt <<< shiftDistance y.toInt)) = .ok (x <<< (y % 64)).toInt
      rw [shiftDistance_toInt, wrap_shiftLeft, BitVec.shiftLeft_eq']
  | shiftRight =>
      show Except.ok (x.toInt >>> shiftDistance y.toInt) = .ok (x.sshiftRight' (y % 64)).toInt
      rw [shiftDistance_toInt, BitVec.sshiftRight_eq', BitVec.toInt_sshiftRight]
  | add =>
      show Except.ok (wrap (x.toInt + y.toInt)) = .ok (x + y).toInt
      rw [wrap_eq_toInt, BitVec.ofInt_add, BitVec.ofInt_toInt, BitVec.ofInt_toInt]
  | sub =>
      show Except.ok (wrap (x.toInt - y.toInt)) = .ok (x - y).toInt
      rw [wrap_eq_toInt, Int.sub_eq_add_neg, BitVec.ofInt_add, BitVec.ofInt_neg, BitVec.ofInt_toInt,
        BitVec.ofInt_toInt, BitVec.sub_eq_add_neg]
  | mul =>
      show Except.ok (wrap (x.toInt * y.toInt)) = .ok (x * y).toInt
      rw [wrap_eq_toInt, BitVec.ofInt_mul, BitVec.ofInt_toInt, BitVec.ofInt_toInt]
  | div =>
      simp only [toInt_eq_zero_iff]
      split
      · rfl
      · rw [wrap_eq_toInt, BitVec.toInt_ofInt, ← BitVec.toInt_sdiv]
        rfl
  | mod =>
      simp only [toInt_eq_zero_iff]
      split
      · rfl
      · show Except.ok (wrap (x.toInt.tmod y.toInt)) = .ok (x.srem y).toInt
        rw [← BitVec.toInt_srem, wrap_of_fits (fits_toInt _)]
  | pow =>
      have hnegative : y.toInt < 0 ↔ y.slt 0 = true :=
        (BitVec.slt_iff_toInt_lt (x := y) (y := 0)).symm
      simp only [hnegative]
      split
      · rfl
      · next hnonneg =>
        have hnat : y.toInt.toNat = y.toNat := by
          rw [← hnegative, BitVec.toInt_eq_toNat_cond] at hnonneg
          rw [BitVec.toInt_eq_toNat_cond]
          split_ifs at hnonneg ⊢ <;> omega
        have hproduct : (List.replicate y.toNat x).foldr (· * ·) 1 = x ^ y.toNat :=
          List.prod_replicate y.toNat x
        show Except.ok (wrappedPow x.toInt y.toInt.toNat) =
          .ok ((List.replicate y.toNat x).foldr (· * ·) 1).toInt
        rw [hnat, wrappedPow_eq, BitVec.ofInt_toInt, hproduct]

/-- **A unary operator on the integer of a word** gives the integer of the word that a machine
gives. -/
theorem UnaryOp.apply_toInt (op : UnaryOp) : op.apply x.toInt = (op.onWord x).toInt := by
  cases op with
  | neg =>
      show wrap (-x.toInt) = (-x).toInt
      rw [wrap_eq_toInt, BitVec.ofInt_neg, BitVec.ofInt_toInt]
  | plus => rfl
  | not =>
      show ofBool (x.toInt = 0) = (bit (x == 0)).toInt
      rw [toInt_bit]
      simp only [toInt_eq_zero_iff]
      rfl
  | complement =>
      show -x.toInt - 1 = (~~~x).toInt
      have hfits : Fits (-x.toInt - 1) := UnaryOp.fits .complement (fits_toInt x)
      rw [← wrap_of_fits hfits, wrap_eq_toInt, Int.sub_eq_add_neg, BitVec.ofInt_add,
        BitVec.ofInt_neg, BitVec.ofInt_toInt, BitVec.not_eq_neg_add, BitVec.sub_eq_add_neg]
      rfl

/-! ### Failures and division -/

/-- **An operator fails** only when it divides by zero or raises to a negative power. -/
theorem BinaryOp.apply_eq_error_iff {op : BinaryOp} {problem : ArithProblem} :
    op.apply left right = .error problem ↔
      (op = .div ∨ op = .mod) ∧ right = 0 ∧ problem = .divisionByZero ∨
        op = .pow ∧ right < 0 ∧ problem = .negativeExponent := by
  unfold BinaryOp.apply
  cases op with
  | div | mod =>
      dsimp only
      split_ifs with hzero <;> simp [hzero, eq_comm]
  | pow =>
      dsimp only
      split_ifs with hnegative <;> simp [hnegative, eq_comm]
  | _ => simp

/-- **Quotient and remainder** of two words: together they give the dividend again, modulo `2^64`,
and the remainder is nearer to zero than the divisor, on the side of the dividend. -/
theorem BinaryOp.div_mod (hright : y ≠ 0) :
    ∃ quotient remainder, div.apply x.toInt y.toInt = .ok quotient ∧
      mod.apply x.toInt y.toInt = .ok remainder ∧
      wrap (quotient * y.toInt + remainder) = x.toInt ∧
      (remainder = 0 ∨ remainder.sign = x.toInt.sign) ∧ remainder.natAbs < y.toInt.natAbs := by
  have hne : y.toInt ≠ 0 := mt (toInt_eq_zero_iff y).mp hright
  have hsum : x.toInt.tdiv y.toInt * y.toInt + x.toInt.tmod y.toInt = x.toInt := by
    rw [Int.mul_comm]
    exact Int.mul_tdiv_add_tmod ..
  refine ⟨_, x.toInt.tmod y.toInt, if_neg hne, ?_, ?_, ?_, ?_⟩
  · rw [← BitVec.toInt_srem, ← wrap_of_fits (fits_toInt (x.srem y)), BitVec.toInt_srem]
    exact if_neg hne
  · rw [wrap_eq_toInt, wrap_eq_toInt, BitVec.ofInt_add, BitVec.ofInt_mul, BitVec.ofInt_toInt,
      ← BitVec.ofInt_mul, ← BitVec.ofInt_add, hsum, BitVec.ofInt_toInt]
  · rw [Int.sign_tmod]
    split_ifs with hdvd
    · exact .inl (Int.tmod_eq_zero_of_dvd hdvd)
    · exact .inr rfl
  · rw [Int.natAbs_tmod]
    exact Nat.mod_lt _ (Int.natAbs_pos.mpr hne)

/-- **Operators are machine operations** on words of 64 bits in two's complement.  For integers of
the signed range, each binary operator gives the integer of the word that the machine gives for
their words, or fails like the machine; and so does each unary operator.  Failures are division by
zero and negative exponents, and nothing else.  Quotient and remainder of a division give the
dividend again, modulo `2^64`, and the remainder has the sign of the dividend or is zero; the one
quotient beyond the range wraps around.  A power is the product of its factors, wrapped at every
step. -/
theorem operators_onWords (hleft : Fits left) (hright : Fits right) :
    (∀ op : BinaryOp, op.apply left right =
      (op.onWords (BitVec.ofInt 64 left) (BitVec.ofInt 64 right)).map BitVec.toInt) ∧
    (∀ op : UnaryOp, op.apply left = (op.onWord (BitVec.ofInt 64 left)).toInt) ∧
    (∀ op problem, BinaryOp.apply op left right = .error problem ↔
      (op = .div ∨ op = .mod) ∧ right = 0 ∧ problem = .divisionByZero ∨
        op = .pow ∧ right < 0 ∧ problem = .negativeExponent) ∧
    (right ≠ 0 → ∃ quotient remainder, BinaryOp.div.apply left right = .ok quotient ∧
      BinaryOp.mod.apply left right = .ok remainder ∧
      wrap (quotient * right + remainder) = left ∧
      (remainder = 0 ∨ remainder.sign = left.sign) ∧ remainder.natAbs < right.natAbs ∧
      (left = -2 ^ 63 ∧ right = -1 → quotient = -2 ^ 63 ∧ remainder = 0)) ∧
    (0 ≤ right → BinaryOp.pow.apply left right = .ok
      ((List.replicate right.toNat left).foldr (fun next product => wrap (next * product)) 1)) := by
  obtain ⟨x, rfl⟩ := exists_toInt hleft
  obtain ⟨y, rfl⟩ := exists_toInt hright
  rw [BitVec.ofInt_toInt, BitVec.ofInt_toInt]
  refine ⟨BinaryOp.apply_toInt x y, UnaryOp.apply_toInt x, fun _ _ => BinaryOp.apply_eq_error_iff,
    fun hne => ?_, fun hnonneg => ?_⟩
  · obtain ⟨quotient, remainder, hdiv, hmod, hsum, hsign, hlt⟩ :=
      BinaryOp.div_mod x y (mt (toInt_eq_zero_iff y).mpr hne)
    refine ⟨quotient, remainder, hdiv, hmod, hsum, hsign, hlt, ?_⟩
    rintro ⟨hlowest, hminus⟩
    rw [hlowest, hminus] at hdiv hmod
    cases hdiv
    cases hmod
    decide
  · show (if y.toInt < 0 then _ else _) = _
    rw [if_neg (Int.not_lt.mpr hnonneg), wrappedPow_eq, foldr_wrap]

/-- The lowest integer divided by minus one, shifted by minus one, raised to it and negated. -/
theorem operators_onWords_lowest :
    Fits (-2 ^ 63) ∧ Fits (-1) ∧ BinaryOp.div.apply (-2 ^ 63) (-1) = .ok (-2 ^ 63) ∧
      BinaryOp.mod.apply (-2 ^ 63) (-1) = .ok 0 ∧
      BinaryOp.shiftRight.apply (-2 ^ 63) (-1) = .ok (-1) ∧
      BinaryOp.pow.apply (-2 ^ 63) (-1) = .error .negativeExponent ∧
      UnaryOp.neg.apply (-2 ^ 63) = -2 ^ 63 := by
  have hleft : Fits (-2 ^ 63) := by decide
  have hright : Fits (-1) := by decide
  obtain ⟨hbinary, hunary, herror, hdivision, -⟩ := operators_onWords hleft hright
  obtain ⟨quotient, remainder, hdiv, hmod, -, -, -, hlowest⟩ := hdivision (by decide)
  obtain ⟨rfl, rfl⟩ := hlowest ⟨rfl, rfl⟩
  refine ⟨hleft, hright, hdiv, hmod, (hbinary .shiftRight).trans (by decide), ?_,
    (hunary .neg).trans (by decide)⟩
  exact (herror .pow .negativeExponent).mpr (.inr ⟨rfl, by decide, rfl⟩)

end ShellExpansion.Arith
