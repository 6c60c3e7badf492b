import Mathlib.Data.List.Basic
import Mathlib.Data.List.Forall2
import Mathlib.Data.Nat.Digits.Defs
import ShellExpansion.Proofs.Text.Alphabet
import ShellExpansion.Text.Numeral

/-! # Numerals that are read back

A text of digits in a base up to sixteen (`DigitsIn`) is read as what the digits are worth, if there
are not too many (`readNumeral_digitsIn`): digits are ASCII, and they hold no sign, no padding, no
underscore and no mark of a base.  A text of plain characters that has no underscore and no mark is
read only if it is such a text (`exists_digitsIn_of_readNumeral`).  The digits of a number
(`Nat.toDigits`) are one (`readNumeral_toDigits`), and so are decimal texts
(`readNumeral_toString`); different numbers have different ones (`toString_nat_inj`).  A text
without a minus sign is no negative numeral (`readNumeral_nonneg`). -/

namespace ShellExpansion.Text

/-! ### Digit characters -/

theorem exists_digitChar_of_mem_toDigits {base n : ℕ} (hbase : 1 < base) {c : Char}
    (h : c ∈ Nat.toDigits base n) : ∃ d < base, c = Nat.digitChar d := by
  induction n using Nat.base_induction base hbase with
  | single m hm =>
      rw [Nat.toDigits_of_lt_base hm, List.mem_singleton] at h
      exact ⟨m, hm, h⟩
  | digit m k hk hm ih =>
      rw [← Nat.toDigits_append_toDigits hbase hm hk, List.mem_append,
        Nat.toDigits_of_lt_base hk, List.mem_singleton] at h
      rcases h with h | h
      · exact ih h
      · exact ⟨k, hk, h⟩

/-- What ten digits have, all characters of a number have. -/
theorem forall_mem_toString {p : Char → Prop} (hdigits : ∀ d < 10, p (Nat.digitChar d)) (n : ℕ) :
    ∀ c ∈ (toString n).toList, p c := by
  intro c hc
  rw [Nat.toString_eq_ofList_toDigits, String.toList_ofList] at hc
  obtain ⟨d, hd, rfl⟩ := exists_digitChar_of_mem_toDigits (by decide) hc
  exact hdigits d hd

/-- Different numbers have different decimal texts. -/
theorem toString_nat_inj {m n : ℕ} : toString m = toString n ↔ m = n := by
  refine ⟨fun h => ?_, congrArg toString⟩
  rw [Nat.toString_eq_ofList_toDigits, Nat.toString_eq_ofList_toDigits, String.ofList_inj] at h
  rw [← Nat.ofDigitChars_toDigits (b := 10) (n := m) (by decide) (by decide), h,
    Nat.ofDigitChars_toDigits (by decide) (by decide)]

/-- A number that is not zero is written without zeros in front. -/
theorem head?_toDigits {base n : ℕ} (hbase : 1 < base) (hn : n ≠ 0) :
    (Nat.toDigits base n).head? ≠ some '0' := by
  induction n using Nat.base_induction base hbase with
  | single m hm =>
      rw [Nat.toDigits_of_lt_base hm, List.head?_cons]
      simp [hn]
  | digit m k hk hm ih =>
      rw [← Nat.toDigits_append_toDigits hbase hm hk,
        List.head?_append_of_ne_nil _ Nat.toDigits_ne_nil]
      exact ih (by omega)

theorem asciiDigit_of_ascii {c : Char} (hc : c.toNat < 128) :
    asciiDigit c = if c.isDigit then Nat.digitChar (c.toNat - '0'.toNat) else c := by
  unfold asciiDigit
  rw [decimalValue?_of_ascii hc]
  cases c.isDigit <;> rfl

theorem asciiDigit_eq_self {c : Char} (hc : c.toNat < 128) : asciiDigit c = c := by
  have hall : ∀ n < 128, (if (Char.ofNat n).isDigit then
      Nat.digitChar ((Char.ofNat n).toNat - '0'.toNat) else Char.ofNat n) = Char.ofNat n := by
    decide
  have hself := hall c.toNat hc
  rw [Char.ofNat_toNat] at hself
  rw [asciiDigit_of_ascii hc, hself]

/-- The character is written for the digit, a letter in either case. -/
def IsDigitChar (d : ℕ) (c : Char) : Prop := c = Nat.digitChar d ∨ c = (Nat.digitChar d).toUpper

instance (d : ℕ) (c : Char) : Decidable (IsDigitChar d c) := inferInstanceAs (Decidable (_ ∨ _))

/-- What a character is not that is written for a digit, and the digit that it is read as. -/
theorem IsDigitChar.facts {d : ℕ} {c : Char} (h : IsDigitChar d c) (hd : d < 16) :
    c.toNat < 128 ∧ digitValue? c = some d ∧ isNumeralPadding c = false ∧
      c ∉ ['_', '-', '+', '#', 'x', 'X', 'o', 'O'] := by
  have hsmall : ∀ d < 16, (Nat.digitChar d).toNat < 128 ∧
      digitValue? (Nat.digitChar d) = some d ∧ isNumeralPadding (Nat.digitChar d) = false ∧
      Nat.digitChar d ∉ ['_', '-', '+', '#', 'x', 'X', 'o', 'O'] := by
    decide
  have hcapital : ∀ d < 16, (Nat.digitChar d).toUpper.toNat < 128 ∧
      digitValue? (Nat.digitChar d).toUpper = some d ∧
      isNumeralPadding (Nat.digitChar d).toUpper = false ∧
      (Nat.digitChar d).toUpper ∉ ['_', '-', '+', '#', 'x', 'X', 'o', 'O'] := by
    decide
  rcases h with rfl | rfl
  · exact hsmall d hd
  · exact hcapital d hd

/-- What is read as a digit is written for it. -/
theorem isDigitChar_of_digitValue? {d : ℕ} {c : Char} (h : digitValue? c = some d) (hd : d < 16) :
    IsDigitChar d c := by
  have hdigits : ∀ d < 10, IsDigitChar d (Char.ofNat ('0'.toNat + d)) := by decide
  have hsmalls : ∀ n < 6, IsDigitChar (n + 10) (Char.ofNat ('a'.toNat + n)) := by decide
  have hcapitals : ∀ n < 6, IsDigitChar (n + 10) (Char.ofNat ('A'.toNat + n)) := by decide
  have hself {first : Char} (hfirst : first ≤ c) :
      Char.ofNat (first.toNat + (c.toNat - first.toNat)) = c := by
    have hle : first.toNat ≤ c.toNat := UInt32.le_iff_toNat_le.mp hfirst
    rw [Nat.add_sub_cancel' hle, Char.ofNat_toNat]
  unfold digitValue? at h
  split_ifs at h with hsmall hcapital hdigit
  · cases h
    have hc := hsmalls (c.toNat - 'a'.toNat) (by omega)
    rwa [hself hsmall.1] at hc
  · cases h
    have hc := hcapitals (c.toNat - 'A'.toNat) (by omega)
    rwa [hself hcapital.1] at hc
  · cases h
    obtain ⟨hfirst, hlast⟩ := Bool.and_eq_true_iff.mp hdigit
    have hle : c.toNat ≤ '0'.toNat + 9 := UInt32.le_iff_toNat_le.mp (of_decide_eq_true hlast)
    have hc := hdigits (c.toNat - '0'.toNat) (by omega)
    rwa [hself (of_decide_eq_true hfirst)] at hc

variable {base : ℕ}

/-! ### Reading digits -/

/-- The characters are written for the digits of a number in the base, from the front. -/
def DigitsIn (base : ℕ) : List Char → List ℕ → Prop :=
  List.Forall₂ fun c d => d < base ∧ IsDigitChar d c

theorem DigitsIn.exists_isDigitChar (hle : base ≤ 16) {cs : List Char} {ds : List ℕ}
    (h : DigitsIn base cs ds) : ∀ c ∈ cs, ∃ d < 16, IsDigitChar d c := by
  induction h with
  | nil => exact nofun
  | cons hc _ ih => exact List.forall_mem_cons.mpr ⟨⟨_, by omega, hc.2⟩, ih⟩

theorem DigitsIn.not_mem (hle : base ≤ 16) {cs : List Char} {ds : List ℕ} (h : DigitsIn base cs ds)
    {c : Char} (hc : c ∈ ['_', '-', '+', '#', 'x', 'X', 'o', 'O']) : c ∉ cs := by
  intro hmem
  obtain ⟨d, hd, hchar⟩ := h.exists_isDigitChar hle c hmem
  exact (hchar.facts hd).2.2.2 hc

theorem readDigits_cons (hle : base ≤ 16) {d : ℕ} {c : Char} (hc : IsDigitChar d c) (hd : d < base)
    (value : ℕ) (rest : List Char) :
    readDigits base value (c :: rest) = readDigits base (value * base + d) rest := by
  obtain ⟨-, hvalue, -, hnot⟩ := hc.facts (by omega)
  have hunderscore : c ≠ '_' := fun h => hnot (by rw [h]; decide)
  rw [readDigits.eq_3 _ _ _ _ fun _ _ h => absurd h hunderscore, readDigits.readDigit, hvalue]
  exact if_pos hd

/-- Digits are read as what they are worth, behind the digits that were read before. -/
theorem readDigits_digitsIn (hle : base ≤ 16) {cs : List Char} {ds : List ℕ}
    (h : DigitsIn base cs ds) (value : ℕ) :
    readDigits base value cs =
      some (value * base ^ ds.length + Nat.ofDigits base ds.reverse) := by
  induction h generalizing value with
  | nil => simp [readDigits]
  | @cons c d cs ds hc _ ih =>
      rw [readDigits_cons hle hc.2 hc.1, ih, Nat.ofDigits_reverse_cons, List.length_cons]
      ring_nf

/-- Nothing but digits is read, if there are no underscores. -/
theorem exists_digitsIn_of_readDigits (hle : base ≤ 16) {cs : List Char} (hunderscore : '_' ∉ cs)
    {value n : ℕ} (h : readDigits base value cs = some n) : ∃ ds, DigitsIn base cs ds := by
  induction cs generalizing value with
  | nil => exact ⟨[], .nil⟩
  | cons c cs ih =>
      obtain ⟨hc, hrest⟩ := not_or.mp (List.mem_cons.not.mp hunderscore)
      rw [readDigits.eq_3 _ _ _ _ fun _ _ e => absurd e (Ne.symm hc), readDigits.readDigit] at h
      split at h
      · next d hvalue =>
          split_ifs at h with hd
          obtain ⟨ds, hds⟩ := ih hrest h
          exact ⟨d :: ds, .cons ⟨hd, isDigitChar_of_digitValue? hvalue (by omega)⟩ hds⟩
      · cases h

/-! ### Reading numerals -/

/-- There is nothing to take off at the ends of a text that begins and ends with other
characters. -/
theorem dropEnds_of_ends {p : Char → Bool} {cs : List Char} (hfirst : ∀ c ∈ cs.head?, p c = false)
    (hlast : ∀ c ∈ cs.getLast?, p c = false) :
    ((cs.dropWhile p).reverse.dropWhile p).reverse = cs := by
  have hdrop : ∀ {cs : List Char}, (∀ c ∈ cs.head?, p c = false) → cs.dropWhile p = cs := by
    intro cs h
    cases cs with
    | nil => rfl
    | cons c cs => rw [List.dropWhile_cons, h c rfl]; rfl
  rw [hdrop hfirst, hdrop (by rwa [List.head?_reverse]), List.reverse_reverse]

theorem dropEnds_of_forall {p : Char → Bool} {cs : List Char} (h : ∀ c ∈ cs, p c = false) :
    ((cs.dropWhile p).reverse.dropWhile p).reverse = cs :=
  dropEnds_of_ends (fun c hc => h c (List.mem_of_head? hc))
    fun c hc => h c (List.mem_of_getLast? hc)

theorem strip_of_forall {text : String} (h : ∀ c ∈ text.toList, isBlank c = false) :
    strip text = text := by
  rw [strip, stripList, dropEnds_of_forall h, String.ofList_toList]

theorem stripPadding_of_forall {cs : List Char} (h : ∀ c ∈ cs, isNumeralPadding c = false) :
    stripPadding cs = cs := dropEnds_of_forall h

theorem isNumeralPadding_eq_false {c : Char} (h : isBlank c = false) :
    isNumeralPadding c = false := by
  unfold isNumeralPadding
  split_ifs
  · rw [Bool.or_eq_false_iff, beq_eq_false_iff_ne, Bool.and_eq_false_iff]
    refine ⟨fun hspace => ?_, ?_⟩
    · rw [hspace] at h
      cases h
    · by_contra hcontrol
      simp only [not_or, Bool.not_eq_false, decide_eq_true_eq] at hcontrol
      have hblank : isBlank c = true := inRanges_iff.mpr ⟨(0x9, 0xd), List.mem_cons_self, hcontrol⟩
      rw [h] at hblank
      cases hblank
  · exact h

/-- Digits in front of which no mark stands keep all their characters. -/
theorem dropBaseMark_eq_self {cs : List Char} (h : ∀ mark rest, cs = '0' :: mark :: rest →
    ¬((base = 16 ∧ (mark = 'x' ∨ mark = 'X')) ∨ (base = 8 ∧ (mark = 'o' ∨ mark = 'O')))) :
    dropBaseMark base cs = cs := by
  unfold dropBaseMark
  split
  · next mark rest => exact if_neg (h mark rest rfl)
  · rfl

theorem dropBaseMark_of_forall {cs : List Char}
    (h : ∀ c ∈ cs, c ∉ ['_', '-', '+', '#', 'x', 'X', 'o', 'O']) : dropBaseMark base cs = cs := by
  refine dropBaseMark_eq_self ?_
  rintro mark rest rfl
  have hmark := h mark (List.mem_cons_of_mem _ List.mem_cons_self)
  rintro (⟨_, rfl | rfl⟩ | ⟨_, rfl | rfl⟩) <;> exact hmark (by decide)

/-- The character stands for itself: it is no padding, no sign, and no digit of another script. -/
def IsPlain (c : Char) : Prop :=
  isNumeralPadding c = false ∧ asciiDigit c = c ∧ c ≠ '-' ∧ c ≠ '+'

theorem IsDigitChar.isPlain {d : ℕ} {c : Char} (h : IsDigitChar d c) (hd : d < 16) : IsPlain c := by
  obtain ⟨hascii, -, hpadding, hnot⟩ := h.facts hd
  refine ⟨hpadding, asciiDigit_eq_self hascii, ?_, ?_⟩
  · rintro rfl
    exact hnot (by decide)
  · rintro rfl
    exact hnot (by decide)

theorem readNumeral_of_isPlain {cs : List Char} (hplain : ∀ c ∈ cs, IsPlain c) :
    readNumeral base (String.ofList cs) =
      (readUnsigned base (dropBaseMark base cs)).map Int.ofNat := by
  have hstrip : stripPadding cs = cs := stripPadding_of_forall fun c hc => (hplain c hc).1
  have hascii : cs.map asciiDigit = cs :=
    (List.map_congr_left fun c hc => (hplain c hc).2.1).trans (List.map_id cs)
  unfold readNumeral
  rw [String.toList_ofList, hstrip, hascii]
  split
  · exact absurd rfl (hplain '-' List.mem_cons_self).2.2.1
  · exact absurd rfl (hplain '+' List.mem_cons_self).2.2.2
  · rfl

theorem readUnsigned_digitsIn (hle : base ≤ 16) {cs : List Char} {ds : List ℕ}
    (h : DigitsIn base cs ds) (hne : cs ≠ []) :
    readUnsigned base (dropBaseMark base cs) =
      if isWithinBound base cs then some (Nat.ofDigits base ds.reverse) else none := by
  have hnot : ∀ c ∈ cs, c ∉ ['_', '-', '+', '#', 'x', 'X', 'o', 'O'] :=
    fun c hc hmark => h.not_mem hle hmark hc
  have hread := readDigits_digitsIn hle h 0
  rw [Nat.zero_mul, Nat.zero_add] at hread
  rw [dropBaseMark_of_forall hnot]
  unfold readUnsigned
  split
  · exact absurd rfl hne
  · exact absurd (by decide) (hnot '_' List.mem_cons_self)
  · rw [hread]

theorem DigitsIn.isPlain (hle : base ≤ 16) {cs : List Char} {ds : List ℕ}
    (h : DigitsIn base cs ds) : ∀ c ∈ cs, IsPlain c := by
  intro c hc
  obtain ⟨d, hd, hchar⟩ := h.exists_isDigitChar hle c hc
  exact hchar.isPlain hd

/-- **Digits are read as what they are worth**, if there are no more of them than the base allows,
and as no number otherwise. -/
theorem readNumeral_digitsIn (hle : base ≤ 16) {cs : List Char} {ds : List ℕ}
    (h : DigitsIn base cs ds) (hne : cs ≠ []) :
    readNumeral base (String.ofList cs) =
      if isWithinBound base cs then some ((Nat.ofDigits base ds.reverse : ℕ) : ℤ) else none := by
  rw [readNumeral_of_isPlain (h.isPlain hle), readUnsigned_digitsIn hle h hne]
  split_ifs <;> rfl

/-- Plain characters are read if they are digits, in texts without underscores and further marks of
the base. -/
theorem exists_digitsIn_of_readNumeral (hle : base ≤ 16) {cs : List Char}
    (hplain : ∀ c ∈ cs, IsPlain c) (hunderscore : '_' ∉ cs) (hmark : dropBaseMark base cs = cs)
    {n : ℤ} (h : readNumeral base (String.ofList cs) = some n) :
    cs ≠ [] ∧ ∃ ds, DigitsIn base cs ds ∧ n = (Nat.ofDigits base ds.reverse : ℕ) := by
  have hread := h
  rw [readNumeral_of_isPlain hplain, hmark] at hread
  unfold readUnsigned at hread
  split at hread
  · cases hread
  · cases hread
  · next hne _ =>
      obtain ⟨value, hvalue, -⟩ := Option.map_eq_some_iff.mp hread
      split_ifs at hvalue
      obtain ⟨ds, hds⟩ := exists_digitsIn_of_readDigits hle hunderscore hvalue
      rw [readNumeral_digitsIn hle hds hne] at h
      split_ifs at h
      exact ⟨hne, ds, hds, (Option.some.inj h).symm⟩

/-! ### The digits of numbers -/

theorem exists_digitsIn_toDigits (hbase : 1 < base) (n : ℕ) :
    ∃ ds, DigitsIn base (Nat.toDigits base n) ds ∧ Nat.ofDigits base ds.reverse = n := by
  induction n using Nat.base_induction base hbase with
  | single m hm =>
      rw [Nat.toDigits_of_lt_base hm]
      exact ⟨[m], .cons ⟨hm, .inl rfl⟩ .nil, Nat.ofDigits_singleton⟩
  | digit m k hk hm ih =>
      obtain ⟨ds, hds, hvalue⟩ := ih
      rw [← Nat.toDigits_append_toDigits hbase hm hk, Nat.toDigits_of_lt_base hk]
      refine ⟨ds ++ [k], List.rel_append hds (.cons ⟨hk, .inl rfl⟩ .nil), ?_⟩
      rw [List.reverse_append, List.reverse_singleton, List.singleton_append, Nat.ofDigits_cons,
        hvalue, Nat.add_comm]

/-- **The digits of a number are read as the number**, if there are no more of them than the base
allows, and as none otherwise. -/
theorem readNumeral_toDigits_eq (hbase : 1 < base) (hle : base ≤ 16) (n : ℕ) :
    readNumeral base (String.ofList (Nat.toDigits base n)) =
      if isWithinBound base (Nat.toDigits base n) then some (n : Int) else none := by
  obtain ⟨ds, hds, hvalue⟩ := exists_digitsIn_toDigits hbase n
  rw [readNumeral_digitsIn hle hds Nat.toDigits_ne_nil, hvalue]

theorem readNumeral_toDigits (hbase : 1 < base) (hle : base ≤ 16) {n : ℕ}
    (hbound : isWithinBound base (Nat.toDigits base n) = true) :
    readNumeral base (String.ofList (Nat.toDigits base n)) = some (n : Int) := by
  rw [readNumeral_toDigits_eq hbase hle, if_pos hbound]

/-! ### Decimal texts -/

/-- A number is written with as many digits as its numeral has. -/
theorem isWithinBound_toDigits (n : ℕ) :
    isWithinBound 10 (Nat.toDigits 10 n) = isWritable n := by
  have hdigits : ∀ c ∈ Nat.toDigits 10 n, (c != '_') = true := by
    intro c hc
    obtain ⟨d, hd, rfl⟩ := exists_digitChar_of_mem_toDigits (by decide) hc
    have hall : ∀ d < 10, (Nat.digitChar d != '_') = true := by decide
    exact hall d hd
  have hcount : (Nat.toDigits 10 n).countP (· != '_') = (Nat.toDigits 10 n).length :=
    List.countP_eq_length.mpr hdigits
  rw [isWithinBound, hcount, isWritable, Int.natAbs_natCast, ← String.length_toList,
    Nat.toString_eq_ofList_toDigits, String.toList_ofList]
  rfl

theorem isWritable_iff {n : ℕ} : isWritable n = true ↔ n < 10 ^ maxDecimalDigits := by
  rw [isWritable, Int.natAbs_natCast, ← String.length_toList, Nat.toString_eq_ofList_toDigits,
    String.toList_ofList, decide_eq_true_iff]
  exact Nat.length_toDigits_le_iff (by decide) (by decide)

/-- The decimal text of a number is read as the number, if it is not too long. -/
theorem readNumeral_toString (n : ℕ) :
    readNumeral 10 (toString n) = if isWritable n then some (n : Int) else none := by
  rw [Nat.toString_eq_ofList_toDigits, readNumeral_toDigits_eq (by decide) (by decide),
    isWithinBound_toDigits]

/-! ### The sign -/

theorem digitChar_ne_minus (d : ℕ) : Nat.digitChar d ≠ '-' := by
  by_cases hd : d < 16
  · have hall : ∀ d < 16, Nat.digitChar d ≠ '-' := by decide
    exact hall d hd
  · unfold Nat.digitChar
    repeat rw [if_neg (by omega)]
    decide

theorem asciiDigit_eq_minus {c : Char} (h : asciiDigit c = '-') : c = '-' := by
  unfold asciiDigit at h
  split at h
  · exact absurd h (digitChar_ne_minus _)
  · exact h

/-- A text without a minus sign is no negative numeral. -/
theorem readNumeral_nonneg {text : String} {n : Int} (hminus : '-' ∉ text.toList)
    (h : readNumeral base text = some n) : 0 ≤ n := by
  have hstrip : '-' ∉ (stripPadding text.toList).map asciiDigit := by
    intro hmem
    obtain ⟨c, hc, hascii⟩ := List.mem_map.mp hmem
    rw [asciiDigit_eq_minus hascii, stripPadding, List.mem_reverse] at hc
    have hc := List.mem_reverse.mp ((List.dropWhile_suffix _).mem hc)
    exact hminus ((List.dropWhile_suffix _).mem hc)
  unfold readNumeral at h
  split at h
  · next heq =>
      rw [heq] at hstrip
      exact absurd List.mem_cons_self hstrip
  all_goals
    obtain ⟨m, -, rfl⟩ := Option.map_eq_some_iff.mp h
    exact Int.natCast_nonneg m

end ShellExpansion.Text
