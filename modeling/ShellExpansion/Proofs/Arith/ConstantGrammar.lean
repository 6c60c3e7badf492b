import ShellExpansion.Proofs.Arith.Tokenizing

/-! # The grammar of constants

A constant without a base in front of it is `0`, or a decimal number that does not begin with `0`,
or an octal number behind `0`, or a hexadecimal number behind `0x` or `0X` (`ConstantText`).  Each
of them is read as what its digits are worth (`constant_of_constantText`), if a decimal one has not
more digits than a number may have.  Of the other numbers among the tokens of an expression none is
read, but for such as have underscores, digits of other scripts, or two marks of their base in them
(`constant_follows_grammar`); these are no constants (`ConstantText.not_lenient`), and some of them
are read (`constant_reads_lenient`). -/

namespace ShellExpansion.Arith

open ShellExpansion.Text (DigitsIn IsDigitChar IsPlain)

/-- The constants without a base in front, and what they are worth. -/
inductive ConstantText : List Char → ℕ → Prop
  | zero : ConstantText ['0'] 0
  | decimal {cs : List Char} {ds : List ℕ} (hne : cs ≠ []) (hfirst : cs.head? ≠ some '0')
      (h : DigitsIn 10 cs ds) : ConstantText cs (Nat.ofDigits 10 ds.reverse)
  | octal {cs : List Char} {ds : List ℕ} (hne : cs ≠ []) (h : DigitsIn 8 cs ds) :
      ConstantText ('0' :: cs) (Nat.ofDigits 8 ds.reverse)
  | hexadecimal {mark : Char} {cs : List Char} {ds : List ℕ} (hmark : mark = 'x' ∨ mark = 'X')
      (hne : cs ≠ []) (h : DigitsIn 16 cs ds) :
      ConstantText ('0' :: mark :: cs) (Nat.ofDigits 16 ds.reverse)

/-- What is let through in numbers although no constant has it. -/
inductive Lenient : List Char → Prop
  | underscore {cs : List Char} (h : '_' ∈ cs) : Lenient cs
  | otherScript {cs : List Char} {c : Char} (hc : c ∈ cs) (hascii : 128 ≤ c.toNat)
      (hdigit : (Text.decimalValue? c).isSome = true) : Lenient cs
  | hexadecimalMarks {mark second : Char} {rest : List Char} (hmark : mark = 'x' ∨ mark = 'X')
      (hsecond : second = 'x' ∨ second = 'X') : Lenient ('0' :: mark :: '0' :: second :: rest)
  | octalMarks {second : Char} {rest : List Char} (hsecond : second = 'o' ∨ second = 'O') :
      Lenient ('0' :: '0' :: second :: rest)

variable {cs : List Char} {n : ℕ}

/-! ### Characters of constants -/

/-- All characters are digits or the mark of a base. -/
theorem ConstantText.forall_mem (h : ConstantText cs n) :
    ∀ c ∈ cs, (∃ d < 16, IsDigitChar d c) ∨ c = 'x' ∨ c = 'X' := by
  have hzero : (∃ d < 16, IsDigitChar d '0') ∨ '0' = 'x' ∨ '0' = 'X' :=
    .inl ⟨0, by decide, .inl rfl⟩
  cases h with
  | zero => exact List.forall_mem_singleton.mpr hzero
  | decimal _ _ h => exact fun c hc => .inl (h.exists_isDigitChar (by decide) c hc)
  | octal _ h =>
      exact List.forall_mem_cons.mpr
        ⟨hzero, fun c hc => .inl (h.exists_isDigitChar (by decide) c hc)⟩
  | hexadecimal hmark _ h =>
      exact List.forall_mem_cons.mpr ⟨hzero, List.forall_mem_cons.mpr
        ⟨.inr hmark, fun c hc => .inl (h.exists_isDigitChar (Nat.le_refl 16) c hc)⟩⟩

theorem ConstantText.not_mem_base (h : ConstantText cs n) : '#' ∉ cs := by
  intro hmem
  rcases h.forall_mem '#' hmem with ⟨d, hd, hc⟩ | hmark | hmark
  · exact (hc.facts hd).2.2.2 (by decide)
  all_goals cases hmark

/-- **No constant has anything in it that is only let through.** -/
theorem ConstantText.not_lenient (h : ConstantText cs n) : ¬Lenient cs := by
  intro hlenient
  cases hlenient with
  | underscore hmem =>
      rcases h.forall_mem '_' hmem with ⟨d, hd, hc⟩ | hmark | hmark
      · exact (hc.facts hd).2.2.2 (by decide)
      all_goals cases hmark
  | otherScript hmem hascii =>
      rcases h.forall_mem _ hmem with ⟨d, hd, hc⟩ | rfl | rfl
      · exact Nat.not_lt.mpr hascii (hc.facts hd).1
      all_goals exact absurd hascii (by decide)
  | @hexadecimalMarks mark second rest hmark hsecond =>
      have hmarks : ∀ c, c = 'x' ∨ c = 'X' → c ∈ ['_', '-', '+', '#', 'x', 'X', 'o', 'O'] := by
        rintro c (rfl | rfl) <;> decide
      cases h with
      | decimal _ hfirst => exact hfirst rfl
      | octal _ h => exact h.not_mem (by decide) (hmarks mark hmark) List.mem_cons_self
      | hexadecimal _ _ h =>
          exact h.not_mem (Nat.le_refl 16) (hmarks second hsecond)
            (List.mem_cons_of_mem _ List.mem_cons_self)
  | @octalMarks second rest hsecond =>
      have hmark : second ∈ ['_', '-', '+', '#', 'x', 'X', 'o', 'O'] := by
        rcases hsecond with rfl | rfl <;> decide
      cases h with
      | decimal _ hfirst => exact hfirst rfl
      | octal _ h => exact h.not_mem (by decide) hmark (List.mem_cons_of_mem _ List.mem_cons_self)
      | hexadecimal hzero => rcases hzero with hzero | hzero <;> cases hzero

theorem Lenient.not_exists_constantText (h : Lenient cs) : ¬∃ n, ConstantText cs n := by
  rintro ⟨n, htext⟩
  exact htext.not_lenient h

/-! ### Constants are read -/

theorem plainValue?_of_constantText (h : ConstantText cs n)
    (hlength : cs.head? = some '0' ∨ cs.length ≤ Text.maxDecimalDigits) :
    plainValue? (String.ofList cs) = some (n : ℤ) := by
  cases h with
  | zero =>
      have hdigits : DigitsIn 10 ['0'] [0] := .cons ⟨by decide, .inl rfl⟩ .nil
      rw [plainValue?_decimal (.inl rfl), Text.readNumeral_digitsIn (by decide) hdigits nofun]
      rfl
  | decimal hne hfirst h =>
      have hbound : Text.isWithinBound 10 cs = true := by
        have hle : cs.countP (· != '_') ≤ Text.maxDecimalDigits :=
          Nat.le_trans List.countP_le_length (hlength.resolve_left hfirst)
        exact Bool.or_eq_true_iff.mpr (.inr (decide_eq_true hle))
      rw [plainValue?_decimal (.inr hfirst), Text.readNumeral_digitsIn (by decide) h hne,
        if_pos hbound]
  | @octal cs ds hne h =>
      obtain ⟨c, rest, rfl⟩ := List.exists_cons_of_ne_nil hne
      -- The first digit is not the mark of base sixteen.
      have hsmall : 'x' ∉ c :: rest := h.not_mem (by decide) (by decide)
      have hcapital : 'X' ∉ c :: rest := h.not_mem (by decide) (by decide)
      rw [plainValue?_octal (List.ne_of_not_mem_cons hsmall).symm
        (List.ne_of_not_mem_cons hcapital).symm, Text.readNumeral_digitsIn (by decide) h hne]
      rfl
  | hexadecimal hmark hne h =>
      rw [plainValue?_hexadecimal hmark, Text.readNumeral_digitsIn (Nat.le_refl 16) h hne]
      rfl

/-- **A constant is read as what its digits are worth.** -/
theorem constant_of_constantText {text : String} (h : ConstantText text.toList n)
    (hlength : text.toList.head? = some '0' ∨ text.length ≤ Text.maxDecimalDigits)
    (expression : String) : constant expression text = .ok n := by
  rw [← String.length_toList] at hlength
  have hvalue := plainValue?_of_constantText h hlength
  rw [String.ofList_toList] at hvalue
  rw [constant_eq_of_no_base h.not_mem_base, hvalue]

/-! ### Nothing else is read -/

theorem IsConstantText.isPlain (h : IsConstantText cs) (hstrict : ¬Lenient cs) {c : Char}
    (hc : c ∈ cs) : IsPlain c := by
  have hascii : Text.asciiDigit c = c := by
    by_cases hc' : c.toNat < 128
    · exact Text.asciiDigit_eq_self hc'
    · have hvalue : Text.decimalValue? c = none := by
        rw [← Option.not_isSome_iff_eq_none]
        exact fun hdigit => hstrict (.otherScript hc (Nat.le_of_not_lt hc') hdigit)
      rw [Text.asciiDigit, hvalue]
  have hblank : Text.isBlank c = false := by
    obtain ⟨first, tail, rfl, hfirst, htail⟩ := h
    rcases List.mem_cons.mp hc with rfl | hmem
    · exact Text.isBlank_eq_false_of_isDigit hfirst
    · have hchar := htail c hmem
      simp only [isConstantChar, Bool.or_eq_true, beq_iff_eq] at hchar
      rcases hchar with ((hchar | rfl) | rfl) | rfl
      · exact Text.isBlank_eq_false_of_isAlphanumeric hchar
      all_goals decide
  refine ⟨Text.isNumeralPadding_eq_false hblank, hascii, ?_, ?_⟩
  · rintro rfl
    exact h.not_mem (by decide) (by decide) hc
  · rintro rfl
    exact h.not_mem (by decide) (by decide) hc

/-- No mark of base sixteen is taken off behind another one. -/
theorem dropBaseMark_hexadecimal {mark : Char} (hmark : mark = 'x' ∨ mark = 'X')
    (hstrict : ¬Lenient ('0' :: mark :: cs)) : Text.dropBaseMark 16 cs = cs := by
  refine Text.dropBaseMark_eq_self ?_
  rintro second rest rfl (⟨-, hsecond⟩ | ⟨hbase, -⟩)
  · exact hstrict (.hexadecimalMarks hmark hsecond)
  · cases hbase

/-- No mark of base eight is taken off behind the zero that is one. -/
theorem dropBaseMark_octal (hstrict : ¬Lenient ('0' :: cs)) : Text.dropBaseMark 8 cs = cs := by
  refine Text.dropBaseMark_eq_self ?_
  rintro second rest rfl (⟨hbase, -⟩ | ⟨-, hsecond⟩)
  · cases hbase
  · exact hstrict (.octalMarks hsecond)

/-- What is read is a constant, unless something in it is only let through. -/
theorem exists_constantText_of_plainValue? (htext : IsConstantText cs) (hstrict : ¬Lenient cs)
    {value : ℤ} (h : plainValue? (String.ofList cs) = some value) :
    ∃ n : ℕ, value = n ∧ ConstantText cs n := by
  have hdigits {base : ℕ} (hle : base ≤ 16) {part : List Char} (hpart : part <:+ cs)
      (hmark : Text.dropBaseMark base part = part) {value : ℤ}
      (hread : Text.readNumeral base (String.ofList part) = some value) :
      part ≠ [] ∧ ∃ ds, DigitsIn base part ds ∧ value = (Nat.ofDigits base ds.reverse : ℕ) :=
    Text.exists_digitsIn_of_readNumeral hle (fun c hc => htext.isPlain hstrict (hpart.mem hc))
      (fun hmem => hstrict (.underscore (hpart.mem hmem))) hmark hread
  by_cases hfirst : cs.head? = some '0'
  · obtain ⟨rest, rfl⟩ : ∃ rest, cs = '0' :: rest := by
      cases cs <;> cases hfirst
      exact ⟨_, rfl⟩
    cases rest with
    | nil =>
        rw [plainValue?_of_constantText .zero (.inl rfl)] at h
        exact ⟨0, (Option.some.inj h).symm, .zero⟩
    | cons c rest =>
        by_cases hmark : c = 'x' ∨ c = 'X'
        · rw [plainValue?_hexadecimal hmark] at h
          obtain ⟨hne, ds, hds, rfl⟩ := hdigits (Nat.le_refl 16) ⟨['0', c], rfl⟩
            (dropBaseMark_hexadecimal hmark hstrict) h
          exact ⟨_, rfl, .hexadecimal hmark hne hds⟩
        · obtain ⟨hsmall, hcapital⟩ := not_or.mp hmark
          rw [plainValue?_octal hsmall hcapital] at h
          obtain ⟨hne, ds, hds, rfl⟩ := hdigits (by decide) ⟨['0'], rfl⟩
            (dropBaseMark_octal hstrict) h
          exact ⟨_, rfl, .octal hne hds⟩
  · have hmark : Text.dropBaseMark 10 cs = cs := Text.dropBaseMark_eq_self fun _ _ _ => by omega
    rw [plainValue?_decimal (.inr hfirst)] at h
    obtain ⟨hne, ds, hds, rfl⟩ := hdigits (by decide) (List.suffix_refl cs) hmark h
    exact ⟨_, rfl, .decimal hne hfirst hds⟩

/-- A text that is read as a number, with nothing behind it, is the only token. -/
theorem tokenize_number {text : String} {c : Char} {tail : List Char}
    (hlist : text.toList = c :: tail) (hseparator : Text.isSeparator c = false)
    (h : lexeme c tail = .ok (.number text, [])) : tokenize text = .ok [⟨.number text, 0⟩] := by
  have hread : ReadsLexeme text.toList (.number text) [] :=
    ⟨c, tail, hlist, hseparator, by rw [List.append_nil, h]⟩
  rw [tokenize, hread.tokensFrom_last 0]
  rfl

/-- **Constants follow their grammar.**  Let a number among the tokens of an expression have no base
in front of it.  If it is a constant, it is read as what its digits are worth, a decimal one up to
as many digits as a number may have.  If it is read, it is a constant and has this value, unless it
has something in it that is only let through.  If it is not read, this is the error that names
it. -/
theorem constant_follows_grammar {source text : String} {tokens : List Token} {position : ℕ}
    (htokens : tokenize source = .ok tokens) (hmem : ⟨.number text, position⟩ ∈ tokens)
    (hbase : '#' ∉ text.toList) (expression : String) :
    (∀ n, ConstantText text.toList n →
      (text.toList.head? = some '0' ∨ text.length ≤ Text.maxDecimalDigits) →
      constant expression text = .ok n) ∧
    (∀ value, constant expression text = .ok value →
      Lenient text.toList ∨ ∃ n : ℕ, value = n ∧ ConstantText text.toList n) ∧
    ∀ fault, constant expression text = .error fault →
      fault = .error (.arithmetic expression (.digitTooGreat text)) := by
  refine ⟨fun n h hlength => constant_of_constantText h hlength expression, fun value h => ?_,
    fun fault h => ?_⟩
  · rw [or_iff_not_imp_left]
    intro hstrict
    have htext := isConstantText_of_tokenize htokens hmem rfl
    refine exists_constantText_of_plainValue? htext hstrict ?_
    rw [String.ofList_toList]
    rw [constant_eq_of_no_base hbase] at h
    split at h <;> cases h
    assumption
  · rw [constant_eq_of_no_base hbase] at h
    split at h <;> cases h
    rfl

/-- A hexadecimal number with a letter of each case, and a number with a letter that is no digit. -/
theorem constant_follows_grammar_bases :
    tokenize "0xfF" = .ok [⟨.number "0xfF", 0⟩] ∧ constant "0xfF" "0xfF" = .ok 255 ∧
      tokenize "5z" = .ok [⟨.number "5z", 0⟩] ∧
      constant "5z" "5z" = .error (.error (.arithmetic "5z" (.digitTooGreat "5z"))) := by
  have hhexadecimal : tokenize "0xfF" = .ok [⟨.number "0xfF", 0⟩] :=
    tokenize_number rfl (by decide) rfl
  have hletter : tokenize "5z" = .ok [⟨.number "5z", 0⟩] := tokenize_number rfl (by decide) rfl
  have hdigits : DigitsIn 16 ['f', 'F'] [15, 15] :=
    .cons ⟨by decide, by decide⟩ (.cons ⟨by decide, by decide⟩ .nil)
  have htext : ConstantText "0xfF".toList 255 := .hexadecimal (.inl rfl) (by decide) hdigits
  have hread := (constant_follows_grammar hhexadecimal List.mem_cons_self (by decide) "0xfF").1 255
    htext (.inl rfl)
  obtain ⟨-, hvalue, hfault⟩ :=
    constant_follows_grammar hletter List.mem_cons_self (by decide) "5z"
  refine ⟨hhexadecimal, hread, hletter, ?_⟩
  cases hconstant : constant "5z" "5z" with
  | error fault => rw [hfault fault hconstant]
  | ok value =>
      exfalso
      rcases hvalue value hconstant with hlenient | ⟨n, -, htext⟩
      · generalize hcs : "5z".toList = cs at hlenient
        have hascii : "5z".toList.all (·.toNat < 128) = true := by decide
        cases hlenient with
        | underscore h => exact absurd (hcs ▸ h) (by decide)
        | otherScript hc h =>
            have hlt := List.all_eq_true.mp hascii _ (hcs ▸ hc)
            exact Nat.not_lt.mpr h (of_decide_eq_true hlt)
        | hexadecimalMarks => cases hcs
        | octalMarks => cases hcs
      · exact absurd (htext.forall_mem 'z' (by decide)) (by decide)

/-- Underscores and further marks of the base are let through. -/
theorem constant_reads_lenient :
    (tokenize "1_000" = .ok [⟨.number "1_000", 0⟩] ∧ constant "1_000" "1_000" = .ok 1000 ∧
      ¬∃ n, ConstantText "1_000".toList n) ∧
    (tokenize "0x0x1f" = .ok [⟨.number "0x0x1f", 0⟩] ∧ constant "0x0x1f" "0x0x1f" = .ok 31 ∧
      ¬∃ n, ConstantText "0x0x1f".toList n) ∧
    tokenize "00o7" = .ok [⟨.number "00o7", 0⟩] ∧ constant "00o7" "00o7" = .ok 7 ∧
      ¬∃ n, ConstantText "00o7".toList n := by
  have hunderscore : Lenient "1_000".toList := .underscore (by decide)
  have hhexadecimal : Lenient "0x0x1f".toList := .hexadecimalMarks (.inl rfl) (.inl rfl)
  have hoctal : Lenient "00o7".toList := .octalMarks (.inl rfl)
  -- The digits that are read when the rest has been taken off.
  have hdecimals : Text.readDigits 10 0 ['1', '_', '0', '0', '0'] = some 1000 := by
    simp [Text.readDigits, Text.readDigits.readDigit, Text.digitValue?]
  have hdigits : Text.readDigits 16 0 ['1', 'f'] = some 31 := by
    simp [Text.readDigits, Text.readDigits.readDigit, Text.digitValue?]
  have hdigit : Text.readDigits 8 0 ['7'] = some 7 := by
    simp [Text.readDigits, Text.readDigits.readDigit, Text.digitValue?]
  have hthousand : plainValue? "1_000" = some 1000 := congrArg (Option.map Int.ofNat) hdecimals
  have hmarked : plainValue? "0x0x1f" = some 31 := congrArg (Option.map Int.ofNat) hdigits
  have hseven : plainValue? "00o7" = some 7 := congrArg (Option.map Int.ofNat) hdigit
  refine ⟨⟨?_, ?_, hunderscore.not_exists_constantText⟩,
    ⟨?_, ?_, hhexadecimal.not_exists_constantText⟩, ?_, ?_, hoctal.not_exists_constantText⟩
  · exact tokenize_number rfl (by decide) (by decide +kernel)
  · rw [constant_eq_of_no_base (by decide), hthousand]
  · exact tokenize_number rfl (by decide) (by decide +kernel)
  · rw [constant_eq_of_no_base (by decide), hmarked]
  · exact tokenize_number rfl (by decide) (by decide +kernel)
  · rw [constant_eq_of_no_base (by decide), hseven]

end ShellExpansion.Arith
