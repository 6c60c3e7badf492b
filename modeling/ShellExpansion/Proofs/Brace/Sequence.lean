import ShellExpansion.Brace
import ShellExpansion.Proofs.Text.Decimal

/-! # Sequences of numbers

Two decimal texts with dots between them, and perhaps a third one for the step, are read as a
sequence (`range?_sequenceText`).  Its texts are worth the integers from the first one towards the
last one, in steps of the distance that the third one gives, as far as these go, and are as long as
the longer end if one of the ends has zeros in front (`sequence_progression`).  There are none if
one of the texts has more digits than a number may have (`sequence_eq_error`). -/

namespace ShellExpansion.Brace

open ShellExpansion.Text (DecimalText DigitsIn IsDigitChar digitCount)

/-- Two ends with dots between them, and a step behind them if there is one. -/
def sequenceText (first last : List Char) (step : Option (List Char)) : List Char :=
  first ++ '.' :: '.' :: (last ++ step.elim [] fun text => '.' :: '.' :: text)

/-- What is written as a step, if anything is, and the distance that it stands for: no step, and a
step of zero, stand for one. -/
inductive StepText : Option (List Char) → ℕ → Prop
  | absent : StepText none 1
  | zero {text : List Char} (h : DecimalText text 0) : StepText (some text) 1
  | written {text : List Char} {n : ℤ} (h : DecimalText text n) (hn : n ≠ 0) :
      StepText (some text) n.natAbs

/-- More than one digit behind the sign, the first of them a zero. -/
def PaddedText (text : List Char) : Prop :=
  ∃ c rest, text = '0' :: c :: rest ∨ text = '-' :: '0' :: c :: rest

/-- The number as which a decimal text is read. -/
def Number.ofText : List Char → Number
  | '-' :: digits => ⟨true, digits⟩
  | digits => ⟨false, digits⟩

variable {text rest : List Char} {n : ℤ}

/-! ### Reading the ends -/

theorem Number.ofText_digits {cs : List Char} {ds : List ℕ} (h : DigitsIn 10 cs ds) :
    Number.ofText cs = ⟨false, cs⟩ := by
  have hminus := h.not_mem (by decide) (c := '-') (by decide)
  unfold Number.ofText
  split
  · exact absurd List.mem_cons_self hminus
  · rfl

theorem Number.text_ofText (h : DecimalText text n) : (Number.ofText text).text = text := by
  cases h with
  | natural hne h => rw [ofText_digits h]; rfl
  | negative => rfl

theorem Number.decimal_digits {cs : List Char} {ds : List ℕ} (h : DigitsIn 10 cs ds) :
    Number.decimal cs = Nat.ofDigits 10 ds.reverse := by
  have hvalue : ∀ d < 10, ∀ c, IsDigitChar d c → c.toNat - '0'.toNat = d := by
    rintro d hd c (rfl | rfl)
    all_goals revert d; decide
  have hfold (value : ℕ) :
      cs.foldl (fun value c => value * 10 + (c.toNat - '0'.toNat)) value =
        value * 10 ^ ds.length + Nat.ofDigits 10 ds.reverse := by
    induction h generalizing value with
    | nil => simp
    | @cons c d cs ds hc _ ih =>
        rw [List.foldl_cons, hvalue d hc.1 c hc.2, ih, Nat.ofDigits_reverse_cons, List.length_cons]
        ring_nf
  rw [decimal, hfold, Nat.zero_mul, Nat.zero_add]

theorem Number.value_ofText (h : DecimalText text n) : (Number.ofText text).value = n := by
  cases h with
  | natural hne h =>
      rw [ofText_digits h]
      exact congrArg Int.ofNat (decimal_digits h)
  | negative hne h => exact congrArg (fun value : ℕ => -(value : ℤ)) (decimal_digits h)

theorem Number.isReadable_ofText (h : DecimalText text n) :
    (Number.ofText text).isReadable = decide (digitCount text ≤ Text.maxDecimalDigits) := by
  cases h with
  | natural hne h =>
      rw [ofText_digits h, h.digitCount_eq]
      rfl
  | negative hne h =>
      rw [Text.digitCount_minus, h.digitCount_eq]
      rfl

theorem Number.isPadded_iff (isNegative : Bool) (digits : List Char) :
    (Number.mk isNegative digits).isPadded = true ↔ ∃ c rest, digits = '0' :: c :: rest := by
  unfold isPadded
  dsimp only
  split
  · next c rest => exact iff_of_true rfl ⟨c, rest, rfl⟩
  · next hne => exact iff_of_false Bool.false_ne_true fun ⟨c, rest, h⟩ => hne c rest h

theorem Number.isPadded_ofText (h : DecimalText text n) :
    (Number.ofText text).isPadded = true ↔ PaddedText text := by
  cases h with
  | natural hne h =>
      have hminus : ∀ digits, text ≠ '-' :: digits := by
        rintro digits rfl
        exact h.not_mem (by decide) (c := '-') (by decide) List.mem_cons_self
      rw [ofText_digits h, isPadded_iff]
      exact ⟨fun ⟨c, rest, hpadded⟩ => ⟨c, rest, .inl hpadded⟩, fun ⟨c, rest, hpadded⟩ =>
        ⟨c, rest, hpadded.resolve_right (hminus _)⟩⟩
  | negative hne h =>
      show (Number.mk true _).isPadded = true ↔ _
      rw [isPadded_iff]
      exact ⟨fun ⟨c, rest, hpadded⟩ => ⟨c, rest, .inr (congrArg _ hpadded)⟩,
        fun ⟨c, rest, hpadded⟩ =>
          ⟨c, rest, hpadded.elim nofun fun hpadded => (List.cons.inj hpadded).2⟩⟩

/-- Digits are read up to the first character that is none. -/
theorem takeWhile_isDigit {cs rest : List Char} (h : ∀ c ∈ cs, c.isDigit = true)
    (hrest : ∀ c ∈ rest.head?, c.isDigit = false) :
    (cs ++ rest).takeWhile Char.isDigit = cs ∧ (cs ++ rest).dropWhile Char.isDigit = rest := by
  rw [List.takeWhile_append_of_pos h, List.dropWhile_append_of_pos h]
  cases rest with
  | nil => exact ⟨List.append_nil cs, rfl⟩
  | cons c rest =>
      have hc := hrest c rfl
      rw [List.takeWhile_cons, List.dropWhile_cons, hc]
      exact ⟨List.append_nil cs, rfl⟩

/-- A number is read off the front of a text in which no digit follows it. -/
theorem number?_append (h : DecimalText text n) (hrest : ∀ c ∈ rest.head?, c.isDigit = false) :
    number? (text ++ rest) = some (Number.ofText text, rest) := by
  have hread {cs : List Char} {ds : List ℕ} (hne : cs ≠ []) (h : DigitsIn 10 cs ds)
      (isNegative : Bool) :
      (if ((cs ++ rest).takeWhile Char.isDigit).isEmpty then none
        else some (⟨isNegative, (cs ++ rest).takeWhile Char.isDigit⟩,
          (cs ++ rest).dropWhile Char.isDigit)) = some ((⟨isNegative, cs⟩ : Number), rest) := by
    obtain ⟨htake, hdrop⟩ := takeWhile_isDigit h.isDigit hrest
    rw [htake, hdrop, if_neg (by rwa [List.isEmpty_iff])]
  cases h with
  | @natural cs ds hne h =>
      obtain ⟨c, cs, rfl⟩ := List.exists_cons_of_ne_nil hne
      have hminus : c ≠ '-' := by
        rintro rfl
        exact h.not_mem (by decide) (c := '-') (by decide) List.mem_cons_self
      rw [Number.ofText_digits h, ← hread hne h false, List.cons_append, number?]
      exact fun _ heq => hminus (List.cons.inj heq).1
  | negative hne h => exact hread hne h true

theorem endpoint?_append (h : DecimalText text n) (hrest : ∀ c ∈ rest.head?, c.isDigit = false) :
    endpoint? (text ++ rest) = some (.number (Number.ofText text), rest) := by
  unfold endpoint?
  rw [number?_append h hrest]

/-! ### Reading a sequence -/

variable {first last : List Char} {m : ℤ} {step : Option (List Char)} {distance : ℕ}

/-- The texts are read as the ends and the step of a sequence. -/
theorem range?_sequenceText (hfirst : DecimalText first m) (hlast : DecimalText last n)
    (hstep : StepText step distance) :
    range? (sequenceText first last step) =
      some ⟨.number (.ofText first), .number (.ofText last), step.map .ofText⟩ := by
  have hdot (rest : List Char) : ∀ c ∈ ('.' :: '.' :: rest).head?, c.isDigit = false := by
    intro c hc
    obtain rfl := Option.some.inj hc
    rfl
  have hread (text : List Char) {n : ℤ} (h : DecimalText text n) :
      range? (sequenceText first last (some text)) =
        some ⟨.number (.ofText first), .number (.ofText last), some (.ofText text)⟩ := by
    have hnumber : number? (text ++ []) = some (.ofText text, []) := number?_append h nofun
    rw [List.append_nil] at hnumber
    simp only [range?, sequenceText, Option.elim_some, endpoint?_append hfirst (hdot _),
      endpoint?_append hlast (hdot _), hnumber, isEnd]
    rfl
  cases hstep with
  | absent =>
      have hend : endpoint? (last ++ []) = some (.number (.ofText last), []) :=
        endpoint?_append hlast nofun
      simp only [range?, sequenceText, Option.elim_none, endpoint?_append hfirst (hdot _), hend]
      rfl
  | zero h => exact hread _ h
  | written h => exact hread _ h

theorem stride_ofText (hstep : StepText step distance) (first last : Endpoint) :
    Range.stride ⟨first, last, step.map .ofText⟩ = distance := by
  unfold Range.stride
  cases hstep with
  | absent => rfl
  | @zero text h =>
      show max (Number.ofText text).value.natAbs 1 = 1
      rw [Number.value_ofText h]
      rfl
  | @written text n h hn =>
      show max (Number.ofText text).value.natAbs 1 = n.natAbs
      rw [Number.value_ofText h]
      omega

theorem StepText.exists_decimalText (h : StepText step distance) :
    ∀ text ∈ step, ∃ n, DecimalText text n := by
  rintro text ⟨⟩
  cases h with
  | zero h => exact ⟨0, h⟩
  | written h => exact ⟨_, h⟩

/-- Whether the numbers of a sequence are read depends on how many digits they have. -/
theorem all_isReadable_iff (hfirst : DecimalText first m) (hlast : DecimalText last n)
    (hstep : StepText step distance) :
    (Range.numbers ⟨.number (.ofText first), .number (.ofText last), step.map .ofText⟩).all
        Number.isReadable = true ↔
      ∀ text ∈ first :: last :: step.toList, digitCount text ≤ Text.maxDecimalDigits := by
  have hreadable {text : List Char} {n : ℤ} (h : DecimalText text n) :
      (Number.ofText text).isReadable = true ↔ digitCount text ≤ Text.maxDecimalDigits := by
    rw [Number.isReadable_ofText h, decide_eq_true_iff]
  have htexts := hstep.exists_decimalText
  cases step with
  | none =>
      simp [Range.numbers, hreadable hfirst, hreadable hlast]
  | some text =>
      obtain ⟨_, htext⟩ := htexts text rfl
      simp [Range.numbers, hreadable hfirst, hreadable hlast, hreadable htext]
      tauto

/-! ### The texts of a sequence -/

theorem length_zeroFill (width : ℕ) (written : List Char) :
    (zeroFill width written).length = max width written.length := by
  unfold zeroFill
  split <;> simp <;> omega

/-- Filling up with zeros does not change what a text is worth. -/
theorem decimalText_zeroFill (h : DecimalText text n) (width : ℕ) :
    DecimalText (zeroFill width text) n := by
  cases h with
  | natural hne h =>
      obtain ⟨ds', hds', hvalue⟩ := h.zeros (width - text.length)
      have hfill : zeroFill width text = List.replicate (width - text.length) '0' ++ text := by
        unfold zeroFill
        split
        · exact absurd List.mem_cons_self (h.not_mem (by decide) (c := '-') (by decide))
        · rfl
      rw [hfill, ← hvalue]
      exact .natural (List.append_ne_nil_of_right_ne_nil _ hne) hds'
  | @negative cs ds hne h =>
      obtain ⟨ds', hds', hvalue⟩ := h.zeros (width - ('-' :: cs).length)
      rw [← hvalue]
      exact .negative (List.append_ne_nil_of_right_ne_nil _ hne) hds'

/-- The integer so many steps from the first one towards the last one. -/
def stepValue (m n : ℤ) (distance i : ℕ) : ℤ :=
  if m ≤ n then m + (i * distance : ℕ) else m - (i * distance : ℕ)

theorem stepValue_bounds {i : ℕ} (hi : i ≤ (n - m).natAbs / distance) :
    min m n ≤ stepValue m n distance i ∧ stepValue m n distance i ≤ max m n := by
  have hle : i * distance ≤ (n - m).natAbs :=
    Nat.le_trans (Nat.mul_le_mul_right distance hi) (Nat.div_mul_le_self _ _)
  unfold stepValue
  split_ifs <;> omega

/-- An integer as a sequence between two texts writes it. -/
def filledText (first last : List Char) (value : ℤ) : List Char :=
  zeroFill (if (Number.ofText first).isPadded || (Number.ofText last).isPadded
    then max first.length last.length else 0) (toString value).toList

theorem decimalText_filledText (first last : List Char) (value : ℤ) :
    DecimalText (filledText first last value) value :=
  decimalText_zeroFill (Text.decimalText_toString value) _

theorem isPadded_or_iff (hfirst : DecimalText first m) (hlast : DecimalText last n) :
    ((Number.ofText first).isPadded || (Number.ofText last).isPadded) = true ↔
      PaddedText first ∨ PaddedText last := by
  rw [Bool.or_eq_true, Number.isPadded_ofText hfirst, Number.isPadded_ofText hlast]

/-- Between the ends no integer has a longer text than both of them. -/
theorem length_filledText (hfirst : DecimalText first m) (hlast : DecimalText last n) {value : ℤ}
    (hlow : min m n ≤ value) (hhigh : value ≤ max m n)
    (hpadded : PaddedText first ∨ PaddedText last) :
    (filledText first last value).length = max first.length last.length := by
  have hlength : (toString value).toList.length ≤ max first.length last.length := by
    obtain hle | hle := le_total m n
    · exact Text.length_toString_le hfirst hlast (by omega) (by omega)
    · rw [max_comm]
      exact Text.length_toString_le hlast hfirst (by omega) (by omega)
  rw [filledText, if_pos ((isPadded_or_iff hfirst hlast).mpr hpadded), length_zeroFill]
  omega

theorem filledText_eq (hfirst : DecimalText first m) (hlast : DecimalText last n)
    (hpadded : ¬(PaddedText first ∨ PaddedText last)) (value : ℤ) :
    filledText first last value = (toString value).toList := by
  have hzero (written : List Char) : zeroFill 0 written = written := by
    unfold zeroFill
    split <;> simp
  rw [filledText, if_neg ((isPadded_or_iff hfirst hlast).not.mpr hpadded), hzero]

/-- The texts of a sequence, if its numbers can be read. -/
theorem sequence_eq_ok (hfirst : DecimalText first m) (hlast : DecimalText last n)
    (hstep : StepText step distance)
    (hdigits : ∀ text ∈ first :: last :: step.toList, digitCount text ≤ Text.maxDecimalDigits) :
    sequence (sequenceText first last step) = .ok (some
      ((List.range ((n - m).natAbs / distance + 1)).map fun i =>
        filledText first last (stepValue m n distance i))) := by
  rw [sequence, range?_sequenceText hfirst hlast hstep]
  dsimp only
  rw [if_pos ((all_isReadable_iff hfirst hlast hstep).mpr hdigits)]
  simp only [Range.texts?, Number.text_ofText hfirst, Number.text_ofText hlast,
    Number.value_ofText hfirst, Number.value_ofText hlast, stride_ofText hstep, progression,
    List.map_map]
  rfl

/-- **Sequences of numbers are exact progressions.**  Let two decimal texts be the ends, and let a
third one be the step or none, none of them with more digits than a number may have.  The sequence
has as many texts as steps of the distance go from the first end to the last one, and one more.
Each of them is worth the integer so many steps from the first end towards the last one, which lies
between both, and is read as this integer if it has not too many digits itself.  If one of the ends
has zeros in front, each text is as long as the longer end, and otherwise it is the text of its
integer. -/
theorem sequence_progression (hfirst : DecimalText first m) (hlast : DecimalText last n)
    (hstep : StepText step distance)
    (hdigits : ∀ text ∈ first :: last :: step.toList, digitCount text ≤ Text.maxDecimalDigits) :
    ∃ texts, sequence (sequenceText first last step) = .ok (some texts) ∧
      texts.length = (n - m).natAbs / distance + 1 ∧
      ∀ (i : ℕ) (hi : i < texts.length),
        min m n ≤ stepValue m n distance i ∧ stepValue m n distance i ≤ max m n ∧
        DecimalText texts[i] (stepValue m n distance i) ∧
        (digitCount texts[i] ≤ Text.maxDecimalDigits →
          Text.readNumeral 10 (String.ofList texts[i]) = some (stepValue m n distance i)) ∧
        (PaddedText first ∨ PaddedText last →
          texts[i].length = max first.length last.length) ∧
        (¬(PaddedText first ∨ PaddedText last) →
          texts[i] = (toString (stepValue m n distance i)).toList) := by
  refine ⟨_, sequence_eq_ok hfirst hlast hstep hdigits, by simp, fun i hi => ?_⟩
  rw [List.length_map, List.length_range] at hi
  obtain ⟨hlow, hhigh⟩ := stepValue_bounds (m := m) (n := n) (Nat.le_of_lt_succ hi)
  have htext := decimalText_filledText first last (stepValue m n distance i)
  simp only [List.getElem_map, List.getElem_range]
  refine ⟨hlow, hhigh, htext, fun hread => ?_, length_filledText hfirst hlast hlow hhigh,
    fun hpadded => filledText_eq hfirst hlast hpadded _⟩
  rw [htext.readNumeral_eq, if_pos hread]

/-- A padded sequence that crosses zero, with a step that does not end on its last number. -/
theorem sequence_progression_acrossZero :
    DecimalText "-05".toList (-5) ∧ DecimalText "10".toList 10 ∧ StepText (some "4".toList) 4 ∧
      ∃ texts, sequence "-05..10..4".toList = .ok (some texts) ∧ texts.length = 4 ∧
        ∀ (i : ℕ) (hi : i < texts.length),
          DecimalText texts[i] (stepValue (-5) 10 4 i) ∧ texts[i].length = 3 := by
  have hfive : DigitsIn 10 "05".toList [0, 5] :=
    .cons ⟨by decide, by decide⟩ (.cons ⟨by decide, by decide⟩ .nil)
  have hten : DigitsIn 10 "10".toList [1, 0] :=
    .cons ⟨by decide, by decide⟩ (.cons ⟨by decide, by decide⟩ .nil)
  have hfirst : DecimalText "-05".toList (-5) := .negative (List.cons_ne_nil _ _) hfive
  have hlast : DecimalText "10".toList 10 := .natural (List.cons_ne_nil _ _) hten
  have hfour : DecimalText "4".toList 4 := Text.decimalText_toString 4
  have hstep : StepText (some "4".toList) 4 := .written hfour (by decide)
  obtain ⟨texts, htexts, hlength, hall⟩ :=
    sequence_progression hfirst hlast hstep (by decide)
  refine ⟨hfirst, hlast, hstep, texts, htexts, hlength, fun i hi => ?_⟩
  obtain ⟨-, -, htext, -, hpadded, -⟩ := hall i hi
  exact ⟨htext, hpadded (.inl ⟨'5', [], .inr rfl⟩)⟩

example : sequence "-05..10..4".toList =
    .ok (some (["-05", "-01", "003", "007"].map String.toList)) := by decide

/-- No sequence is made of numbers that cannot be read. -/
theorem sequence_eq_error (hfirst : DecimalText first m) (hlast : DecimalText last n)
    (hstep : StepText step distance)
    (h : ∃ text ∈ first :: last :: step.toList, Text.maxDecimalDigits < digitCount text) :
    sequence (sequenceText first last step) = .error .numberTooLong := by
  have hnot : ¬∀ text ∈ first :: last :: step.toList,
      digitCount text ≤ Text.maxDecimalDigits := by
    obtain ⟨text, hmem, hlt⟩ := h
    exact fun hall => Nat.not_le.mpr hlt (hall text hmem)
  rw [sequence, range?_sequenceText hfirst hlast hstep]
  dsimp only
  rw [if_neg ((all_isReadable_iff hfirst hlast hstep).not.mpr hnot)]

/-- A number with one digit too many makes no sequence, not even with itself. -/
theorem sequence_beyondDigits :
    (∃ n, DecimalText (List.replicate 4301 '1') n) ∧
      ¬∃ texts, sequence (sequenceText (List.replicate 4301 '1') (List.replicate 4301 '1') none) =
        .ok (some texts) := by
  have hones (count : ℕ) : DigitsIn 10 (List.replicate count '1') (List.replicate count 1) := by
    induction count with
    | zero => exact .nil
    | succ count ih => exact .cons ⟨by decide, by decide⟩ ih
  have htext := DecimalText.natural List.replicate_succ_ne_nil (hones 4301)
  have hcount : Text.maxDecimalDigits < digitCount (List.replicate 4301 '1') := by
    rw [(hones 4301).digitCount_eq, List.length_replicate]
    decide
  have herror := sequence_eq_error htext htext .absent ⟨_, List.mem_cons_self, hcount⟩
  refine ⟨⟨_, htext⟩, ?_⟩
  rintro ⟨texts, htexts⟩
  rw [herror] at htexts
  cases htexts

end ShellExpansion.Brace
