import Mathlib.Algebra.Group.Nat.Defs
import Mathlib.Data.List.TakeWhile
import ShellExpansion.Arith.Constant
import ShellExpansion.Proofs.Except
import ShellExpansion.Proofs.Text.Numeral

/-! # Numbers as constants

A constant without a base in front of it is decimal, or hexadecimal, or octal (`plainValue?`).
`numeral` writes a number that is not negative as such a constant: in base ten if base ten has
enough digits, and in base sixteen else.  The number is read back from it (`constant_numeral`).  No
constant without a minus sign is negative (`constant_nonneg`). -/

namespace ShellExpansion.Arith

/-- The value of a constant without a base in front. -/
def plainValue? (text : String) : Option Int :=
  match text.toList with
  | '0' :: 'x' :: rest => Text.readNumeral 16 (String.ofList rest)
  | '0' :: 'X' :: rest => Text.readNumeral 16 (String.ofList rest)
  | '0' :: c :: rest => Text.readNumeral 8 (String.ofList (c :: rest))
  | _ => Text.readNumeral 10 text

theorem plainValue?_hexadecimal {mark : Char} (h : mark = 'x' ∨ mark = 'X') (cs : List Char) :
    plainValue? (String.ofList ('0' :: mark :: cs)) = Text.readNumeral 16 (String.ofList cs) := by
  unfold plainValue?
  rw [String.toList_ofList]
  rcases h with rfl | rfl <;> rfl

theorem plainValue?_octal {c : Char} (hsmall : c ≠ 'x') (hcapital : c ≠ 'X') (cs : List Char) :
    plainValue? (String.ofList ('0' :: c :: cs)) =
      Text.readNumeral 8 (String.ofList (c :: cs)) := by
  unfold plainValue?
  rw [String.toList_ofList]
  split
  · next heq => exact absurd (List.cons.inj (List.cons.inj heq).2).1 hsmall
  · next heq => exact absurd (List.cons.inj (List.cons.inj heq).2).1 hcapital
  · next heq => rw [(List.cons.inj heq).2]
  · next hne => exact absurd rfl (hne c cs)

theorem plainValue?_decimal {cs : List Char} (h : cs = ['0'] ∨ cs.head? ≠ some '0') :
    plainValue? (String.ofList cs) = Text.readNumeral 10 (String.ofList cs) := by
  have hne : ∀ c rest, cs ≠ '0' :: c :: rest := by
    rintro c rest rfl
    rcases h with h | h
    · cases h
    · exact h rfl
  unfold plainValue?
  rw [String.toList_ofList]
  split
  · exact absurd rfl (hne 'x' _)
  · exact absurd rfl (hne 'X' _)
  · exact absurd rfl (hne _ _)
  · rfl

theorem constant_eq_of_no_base {text : String} (h : '#' ∉ text.toList) (expression : String) :
    constant expression text = match plainValue? text with
      | some value => .ok value
      | none => .error (.error (.arithmetic expression (.digitTooGreat text))) := by
  have hdrop : text.toList.dropWhile (· != '#') = [] := by
    refine List.dropWhile_eq_nil_iff.mpr fun c hc => ?_
    exact bne_iff_ne.mpr fun e => h (e ▸ hc)
  unfold constant
  rw [hdrop]
  rfl

theorem baseDigits_eq_ok {refuse : Fault} {base n : Nat} (other : Fault) :
    ∀ {cs : List Char} {value : Nat},
      baseDigits refuse base value cs = .ok n → baseDigits other base value cs = .ok n
  | [], _, h => h
  | c :: cs, value, h => by
      unfold baseDigits at h ⊢
      cases hdigit : baseDigit base c with
      | error fault =>
          rw [hdigit] at h
          cases h
      | ok digit =>
          rw [hdigit] at h
          dsimp only at h ⊢
          split_ifs at h ⊢
          exact baseDigits_eq_ok other h

/-- The expression that a constant stands in is shown by errors only. -/
theorem constant_eq_ok {expression text : String} {n : Int} (h : constant expression text = .ok n)
    (other : String) : constant other text = .ok n := by
  unfold constant at h ⊢
  split at h
  · split at h
    · cases h
    · dsimp only at h ⊢
      split_ifs at h ⊢
      obtain ⟨value, hvalue, rfl⟩ := exists_of_map_eq_ok h
      rw [baseDigits_eq_ok _ hvalue]
      rfl
  · dsimp only at h ⊢
    split at h
    · exact h
    · cases h

/-! ### Numerals -/

/-- A number as a constant. -/
def numeral (n : ℕ) : String :=
  if Text.isWritable n then toString n
  else String.ofList ('0' :: 'x' :: Nat.toDigits 16 n)

theorem not_mem_toDigits {base n : ℕ} (hbase : 1 < base) (hle : base ≤ 16) {c : Char}
    (hc : c ∈ ['_', '-', '+', '#', 'x', 'X', 'o', 'O']) : c ∉ Nat.toDigits base n := by
  obtain ⟨ds, hds, -⟩ := Text.exists_digitsIn_toDigits hbase n
  exact hds.not_mem hle hc

theorem isWithinBound_of_isWritable {n : ℕ} (h : Text.isWritable n = true) :
    Text.isWithinBound 10 (Nat.toDigits 10 n) = true :=
  (Text.isWithinBound_toDigits n).trans h

/-- **A number is read back from its numeral.** -/
theorem constant_numeral (expression : String) (n : ℕ) :
    constant expression (numeral n) = .ok (n : Int) := by
  unfold numeral
  split
  · next h =>
      rw [Nat.toString_eq_ofList_toDigits]
      have hfirst : Nat.toDigits 10 n = ['0'] ∨ (Nat.toDigits 10 n).head? ≠ some '0' := by
        by_cases hn : n = 0
        · exact .inl (by rw [hn, Nat.toDigits_zero])
        · exact .inr (Text.head?_toDigits (by decide) hn)
      have hbase : '#' ∉ (String.ofList (Nat.toDigits 10 n)).toList := by
        rw [String.toList_ofList]
        exact not_mem_toDigits (by decide) (by decide) (by decide)
      rw [constant_eq_of_no_base hbase, plainValue?_decimal hfirst,
        Text.readNumeral_toDigits (by decide) (by decide) (isWithinBound_of_isWritable h)]
  · have hbase : '#' ∉ (String.ofList ('0' :: 'x' :: Nat.toDigits 16 n)).toList := by
      rw [String.toList_ofList, List.mem_cons, List.mem_cons, not_or, not_or]
      exact ⟨by decide, by decide, not_mem_toDigits (by decide) (Nat.le_refl 16) (by decide)⟩
    rw [constant_eq_of_no_base hbase, plainValue?_hexadecimal (.inl rfl),
      Text.readNumeral_toDigits (by decide) (Nat.le_refl 16) rfl]

/-- The numeral of an index, or of the amount of a negative integer, is its decimal text. -/
theorem numeral_of_le {n : ℕ} (h : n ≤ 2 ^ 63) : numeral n = toString n := by
  have hdigits : 2 ^ 63 < 10 ^ 19 := by decide
  have hbound : 10 ^ 19 ≤ 10 ^ Text.maxDecimalDigits := Nat.pow_le_pow_right (by decide) (by decide)
  have hwritable : Text.isWritable n = true := Text.isWritable_iff.mpr (by omega)
  rw [numeral, if_pos hwritable]

/-! ### The sign -/

/-- A constant without a minus sign is not negative. -/
theorem constant_nonneg {expression text : String} {n : Int} (hminus : '-' ∉ text.toList)
    (h : constant expression text = .ok n) : 0 ≤ n := by
  have hrest : ∀ {cs : List Char} {base : ℕ} {n : Int}, (∀ c ∈ cs, c ∈ text.toList) →
      Text.readNumeral base (String.ofList cs) = some n → 0 ≤ n := by
    intro cs base n hcs hread
    refine Text.readNumeral_nonneg (fun hmem => ?_) hread
    rw [String.toList_ofList] at hmem
    exact hminus (hcs _ hmem)
  unfold constant at h
  split at h
  · -- The digits behind a base are worth a natural number.
    split at h
    · cases h
    · split_ifs at h
      obtain ⟨m, -, rfl⟩ := exists_of_map_eq_ok h
      exact Int.natCast_nonneg m
  · dsimp only at h
    split at h
    · next hread =>
        cases h
        split at hread
        · next heq => exact hrest (by rw [heq]; simp +contextual) hread
        · next heq => exact hrest (by rw [heq]; simp +contextual) hread
        · next heq => exact hrest (by rw [heq]; simp +contextual) hread
        · exact Text.readNumeral_nonneg hminus hread
    · cases h

end ShellExpansion.Arith
