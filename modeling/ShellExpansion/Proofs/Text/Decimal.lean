import Mathlib.Data.Nat.Digits.Lemmas
import ShellExpansion.Proofs.Text.Numeral

/-! # Decimal texts

A decimal text is made of digits, perhaps with zeros in front, and perhaps of a minus sign in front
of these (`DecimalText`).  It is read as the integer that it is worth if it has not more digits than
a number may have (`DecimalText.readNumeral_eq`).  The text that an integer is written as is one
(`decimalText_toString`), and no shorter text is worth an integer as far from zero on the same side
(`DecimalText.length_toString_le`). -/

namespace ShellExpansion.Text

/-- A text of digits, a minus sign in front of them allowed, and the integer that it is worth. -/
inductive DecimalText : List Char → ℤ → Prop
  | natural {cs : List Char} {ds : List ℕ} (hne : cs ≠ []) (h : DigitsIn 10 cs ds) :
      DecimalText cs (Nat.ofDigits 10 ds.reverse : ℕ)
  | negative {cs : List Char} {ds : List ℕ} (hne : cs ≠ []) (h : DigitsIn 10 cs ds) :
      DecimalText ('-' :: cs) (-(Nat.ofDigits 10 ds.reverse : ℕ))

/-- How many digits a text has. -/
def digitCount (cs : List Char) : ℕ := cs.countP Char.isDigit

variable {cs : List Char} {ds : List ℕ} {m : ℤ}

/-! ### Digits -/

theorem IsDigitChar.isDigit {d : ℕ} {c : Char} (h : IsDigitChar d c) (hd : d < 10) :
    c.isDigit = true := by
  have hsmall : ∀ d < 10, (Nat.digitChar d).isDigit = true := by decide
  have hcapital : ∀ d < 10, (Nat.digitChar d).toUpper.isDigit = true := by decide
  rcases h with rfl | rfl
  · exact hsmall d hd
  · exact hcapital d hd

theorem DigitsIn.isDigit (h : DigitsIn 10 cs ds) : ∀ c ∈ cs, c.isDigit = true := by
  induction h with
  | nil => exact nofun
  | cons hc _ ih => exact List.forall_mem_cons.mpr ⟨hc.2.isDigit hc.1, ih⟩

theorem DigitsIn.digitCount_eq (h : DigitsIn 10 cs ds) : digitCount cs = cs.length :=
  List.countP_eq_length.mpr h.isDigit

theorem digitCount_minus (cs : List Char) : digitCount ('-' :: cs) = digitCount cs :=
  List.countP_cons_of_neg (by decide)

/-- The digits of a number are below the power of the base with as many zeros. -/
theorem DigitsIn.ofDigits_lt (h : DigitsIn 10 cs ds) :
    Nat.ofDigits 10 ds.reverse < 10 ^ cs.length := by
  have hds : ∀ d ∈ ds.reverse, d < 10 := by
    intro d hd
    rw [List.mem_reverse] at hd
    induction h with
    | nil => cases hd
    | cons hc _ ih =>
        rcases List.mem_cons.mp hd with rfl | hd
        · exact hc.1
        · exact ih hd
  have hlt := Nat.ofDigits_lt_base_pow_length (by decide) hds
  rwa [List.length_reverse, ← h.length_eq] at hlt

/-- Zeros in front of digits make no difference to what these are worth. -/
theorem DigitsIn.zeros (h : DigitsIn 10 cs ds) (count : ℕ) :
    ∃ ds', DigitsIn 10 (List.replicate count '0' ++ cs) ds' ∧
      Nat.ofDigits 10 ds'.reverse = Nat.ofDigits 10 ds.reverse := by
  induction count with
  | zero => exact ⟨ds, h, rfl⟩
  | succ count ih =>
      obtain ⟨ds', hds', hvalue⟩ := ih
      refine ⟨0 :: ds', .cons ⟨by decide, by decide⟩ hds', ?_⟩
      rw [Nat.ofDigits_reverse_cons, Nat.mul_zero, Nat.add_zero, hvalue]

/-! ### The text of an integer -/

/-- The digits of an integer behind its sign. -/
theorem toList_toString (m : ℤ) :
    (toString m).toList =
      if m < 0 then '-' :: Nat.toDigits 10 m.natAbs else Nat.toDigits 10 m.natAbs := by
  cases m with
  | ofNat n =>
      have hn : ¬Int.ofNat n < 0 := Int.not_lt.mpr (Int.natCast_nonneg n)
      rw [if_neg hn]
      show (toString n).toList = _
      rw [Nat.toString_eq_ofList_toDigits, String.toList_ofList]
      rfl
  | negSucc n =>
      rw [if_pos (Int.negSucc_lt_zero n)]
      show ("-" ++ toString (n + 1)).toList = _
      have hdigits : (toString (n + 1)).toList = Nat.toDigits 10 (n + 1) := by
        rw [Nat.toString_eq_ofList_toDigits, String.toList_ofList]
      rw [String.toList_append, hdigits]
      rfl

/-- What the minus sign and ten digits have, all characters of an integer have. -/
theorem forall_mem_decimal {p : Char → Prop} (hminus : p '-')
    (hdigits : ∀ d < 10, p (Nat.digitChar d)) (m : ℤ) : ∀ c ∈ (toString m).toList, p c := by
  have hnumber : ∀ c ∈ Nat.toDigits 10 m.natAbs, p c := by
    intro c hc
    obtain ⟨d, hd, rfl⟩ := exists_digitChar_of_mem_toDigits (by decide) hc
    exact hdigits d hd
  rw [toList_toString]
  split
  · exact List.forall_mem_cons.mpr ⟨hminus, hnumber⟩
  · exact hnumber

theorem exists_cons_decimal (m : ℤ) : ∃ c rest, (toString m).toList = c :: rest := by
  rw [toList_toString]
  split
  · exact ⟨'-', _, rfl⟩
  · exact List.exists_cons_of_ne_nil Nat.toDigits_ne_nil

theorem isBlank_decimal (m : ℤ) : ∀ c ∈ (toString m).toList, isBlank c = false :=
  forall_mem_decimal (by decide) (by decide) m

theorem allBlank_decimal (m : ℤ) : allBlank (toString m) = false := by
  have hblank := isBlank_decimal m
  obtain ⟨c, rest, htext⟩ := exists_cons_decimal m
  rw [htext] at hblank
  rw [allBlank, htext, List.all_eq_false]
  exact ⟨c, List.mem_cons_self, Bool.eq_false_iff.mp (hblank c List.mem_cons_self)⟩

/-- Different integers have different texts. -/
theorem toString_int_inj {m n : ℤ} : toString m = toString n ↔ m = n := by
  have hsign (m n : ℕ) : toString (Int.ofNat m) ≠ toString (Int.negSucc n) := by
    intro h
    have hdigits : ∀ c ∈ (toString m).toList, c ≠ '-' := forall_mem_toString (by decide) m
    refine hdigits '-' ?_ rfl
    rw [show toString m = "-" ++ toString (n + 1) from h, String.toList_append]
    exact List.mem_cons_self
  refine ⟨fun h => ?_, congrArg toString⟩
  match m, n with
  | .ofNat m, .ofNat n => exact congrArg Int.ofNat (toString_nat_inj.mp h)
  | .ofNat m, .negSucc n => exact absurd h (hsign m n)
  | .negSucc m, .ofNat n => exact absurd h.symm (hsign n m)
  | .negSucc m, .negSucc n =>
      have h : "-" ++ toString (m + 1) = "-" ++ toString (n + 1) := h
      rw [String.append_right_inj, toString_nat_inj] at h
      exact congrArg Int.negSucc (Nat.succ.inj h)

/-- The text of an integer is worth the integer. -/
theorem decimalText_toString (m : ℤ) : DecimalText (toString m).toList m := by
  have hbase : 1 < 10 := by decide
  obtain ⟨ds, hds, hvalue⟩ := exists_digitsIn_toDigits hbase m.natAbs
  rw [toList_toString]
  split_ifs with hm
  · have htext := DecimalText.negative Nat.toDigits_ne_nil hds
    rwa [hvalue, ← Int.eq_neg_natAbs_of_nonpos (Int.le_of_lt hm)] at htext
  · have htext := DecimalText.natural Nat.toDigits_ne_nil hds
    rwa [hvalue, Int.natAbs_of_nonneg (Int.not_lt.mp hm)] at htext

/-- An integer between two others is written with no more characters than the longer one of any two
texts that are worth these. -/
theorem length_toString_le {first last : List Char} {low high : ℤ} (hlow : DecimalText first low)
    (hhigh : DecimalText last high) (hle : low ≤ m) (hge : m ≤ high) :
    (toString m).toList.length ≤ max first.length last.length := by
  have hdigits {cs : List Char} {ds : List ℕ} (hne : cs ≠ []) (h : DigitsIn 10 cs ds) {n : ℕ}
      (hn : n ≤ Nat.ofDigits 10 ds.reverse) : (Nat.toDigits 10 n).length ≤ cs.length :=
    (Nat.length_toDigits_le_iff (by decide) (List.length_pos_iff.mpr hne)).mpr
      (Nat.lt_of_le_of_lt hn h.ofDigits_lt)
  rw [toList_toString]
  split_ifs with hm
  · -- The lower one is negative as well, and at least as far from zero.
    cases hlow with
    | natural => omega
    | negative hne h =>
        have hlength := hdigits hne h (n := m.natAbs) (by omega)
        rw [List.length_cons, List.length_cons]
        omega
  · cases hhigh with
    | natural hne h =>
        have hlength := hdigits hne h (n := m.natAbs) (by omega)
        omega
    | negative hne h =>
        have hlength := hdigits hne h (n := m.natAbs) (by omega)
        rw [List.length_cons]
        omega

/-! ### Reading -/

theorem isWithinBound_digitsIn (h : DigitsIn 10 cs ds) :
    isWithinBound 10 cs = decide (digitCount cs ≤ maxDecimalDigits) := by
  have hcount : cs.countP (· != '_') = digitCount cs := by
    rw [h.digitCount_eq, List.countP_eq_length]
    intro c hc
    have hunderscore := h.not_mem (by decide) (c := '_') (by decide)
    exact bne_iff_ne.mpr fun e => hunderscore (e ▸ hc)
  rw [isWithinBound, hcount]
  rfl

/-- **A decimal text is read as what it is worth**, if it has not more digits than a number may
have, and as no number otherwise. -/
theorem DecimalText.readNumeral_eq (h : DecimalText cs m) :
    readNumeral 10 (String.ofList cs) =
      if digitCount cs ≤ maxDecimalDigits then some m else none := by
  cases h with
  | natural hne h =>
      rw [readNumeral_digitsIn (by decide) h hne, isWithinBound_digitsIn h]
      simp only [decide_eq_true_eq]
  | @negative cs ds hne h =>
      have hpadding : ∀ c ∈ '-' :: cs, isNumeralPadding c = false :=
        List.forall_mem_cons.mpr ⟨by decide, fun c hc => (h.isPlain (by decide) c hc).1⟩
      have hascii : ('-' :: cs).map asciiDigit = '-' :: cs := by
        have hself : ∀ c ∈ cs, asciiDigit c = id c := fun c hc => (h.isPlain (by decide) c hc).2.1
        rw [List.map_cons, List.map_congr_left hself, List.map_id]
        rfl
      have hread := readUnsigned_digitsIn (by decide) h hne
      rw [isWithinBound_digitsIn h] at hread
      unfold readNumeral
      rw [String.toList_ofList, stripPadding_of_forall hpadding, hascii, digitCount_minus]
      simp only [hread, decide_eq_true_eq]
      split_ifs <;> rfl

end ShellExpansion.Text
