import ShellExpansion.Proofs.Arith.Element

/-! # Constants with a sign

A constant of ASCII, with or without a sign in front, separators between them allowed
(`SignedConstant`), is an expression of its own.  Whether the constant has a value does not depend
on what stands around it (`constant_cases`); if it has one, the expression is this number, or the
sign on it (`SignedConstant.parse_text`), and if not, the parser refuses it with the error of the
constant (`SignedConstant.parse_text_error`). -/

namespace ShellExpansion.Arith

/-- A character of constants of ASCII. -/
def isPlainChar (c : Char) : Bool := c.isAlphanum || c == '#' || c == '@' || c == '_'

/-- A constant of ASCII behind a sign, if there is one, and separators. -/
structure SignedConstant where
  sign : Option UnaryOp
  separators : List Char
  digit : Char
  others : List Char
  sign_spec : ∀ op ∈ sign, op = .plus ∨ op = .neg
  separators_spec : ∀ c ∈ separators, Text.isSeparator c = true
  digit_spec : digit.isDigit = true
  others_spec : ∀ c ∈ others, isPlainChar c = true

/-! ### Characters of ASCII -/

theorem toNat_of_isPlainChar {c : Char} (h : isPlainChar c = true) :
    32 < c.toNat ∧ c.toNat < 128 := by
  simp only [isPlainChar, Bool.or_eq_true, beq_iff_eq] at h
  obtain ((halphanum | rfl) | rfl) | rfl := h
  · obtain ⟨hlow, hhigh⟩ := Text.toNat_of_isAlphanum halphanum
    exact ⟨by omega, hhigh⟩
  all_goals decide

theorem toNat_lt_of_isPlainChar {c : Char} (h : isPlainChar c = true) : c.toNat < 128 :=
  (toNat_of_isPlainChar h).2

theorem isBlank_of_isPlainChar {c : Char} (h : isPlainChar c = true) : Text.isBlank c = false := by
  obtain ⟨hlow, hhigh⟩ := toNat_of_isPlainChar h
  simp [Text.isBlank, Text.inRanges, Text.blankRanges]
  omega

theorem isPlainChar_of_isDigit {c : Char} (h : c.isDigit = true) : isPlainChar c = true := by
  rw [isPlainChar, Char.isAlphanum, h, Bool.or_true]
  rfl

theorem isConstantChar_of_isPlainChar {c : Char} (h : isPlainChar c = true) :
    isConstantChar c = true := by
  rw [isConstantChar, Text.isAlphanumeric_of_ascii (toNat_lt_of_isPlainChar h)]
  exact h

/-! ### Constants of ASCII -/

/-- Every character of ASCII has a value in a base. -/
theorem exists_baseDigit {c : Char} (h : isPlainChar c = true) (base : ℕ) :
    ∃ value, baseDigit base c = .ok value := by
  have hascii := toNat_lt_of_isPlainChar h
  unfold baseDigit
  rw [Text.isDigit_of_ascii hascii, Text.decimalValue?_of_ascii hascii]
  split_ifs <;> exact ⟨_, rfl⟩

theorem baseDigits_cases {cs : List Char} (h : ∀ c ∈ cs, isPlainChar c = true) (base value : ℕ) :
    (∃ n, ∀ refuse, baseDigits refuse base value cs = .ok n) ∨
      ∀ refuse, baseDigits refuse base value cs = .error refuse := by
  induction cs generalizing value with
  | nil => exact .inl ⟨value, fun _ => rfl⟩
  | cons c cs ih =>
      obtain ⟨hc, hcs⟩ := List.forall_mem_cons.mp h
      obtain ⟨digit, hdigit⟩ := exists_baseDigit hc base
      simp only [baseDigits, hdigit]
      split_ifs
      · exact ih hcs (value * base + digit)
      · exact .inr fun _ => rfl

/-- **Whether a constant has a value depends on its text alone**; the expression around it is shown
by the error. -/
theorem constant_cases {text : String} (h : ∀ c ∈ text.toList, isPlainChar c = true) :
    (∃ n, ∀ expression, constant expression text = .ok n) ∨
      ∃ problem, ∀ expression, constant expression text =
        .error (.error (.arithmetic expression problem)) := by
  unfold constant
  split
  · next digits hdrop =>
      cases Text.readNumeral 10 (String.ofList (text.toList.takeWhile (· != '#'))) with
      | none => exact .inr ⟨.invalidNumber, fun _ => rfl⟩
      | some base =>
          dsimp only
          split_ifs
          · exact .inr ⟨.invalidBase, fun _ => rfl⟩
          · exact .inr ⟨.invalidNumber, fun _ => rfl⟩
          · have hdigits : ∀ c ∈ digits, isPlainChar c = true := by
              intro c hc
              have hmem : c ∈ text.toList.dropWhile (· != '#') := hdrop ▸ List.mem_cons_of_mem _ hc
              exact h c ((List.dropWhile_suffix _).subset hmem)
            obtain ⟨n, hn⟩ | herror := baseDigits_cases hdigits base.toNat 0
            · exact .inl ⟨n, fun expression => by rw [hn]; rfl⟩
            · exact .inr ⟨.digitTooGreat (String.ofList digits), fun expression => by
                rw [herror]; rfl⟩
  · dsimp only
    split
    · next value hvalue => exact .inl ⟨value, fun _ => rfl⟩
    · exact .inr ⟨.digitTooGreat text, fun _ => rfl⟩

/-! ### Reading -/

namespace SignedConstant

variable (c : SignedConstant)

/-- The constant itself. -/
def constant : String := String.ofList (c.digit :: c.others)

/-- The text of the sign, the separators and the constant. -/
def text : String :=
  String.ofList (c.sign.elim [] (·.symbol.toList) ++ (c.separators ++ c.constant.toList))

/-- The expression that the text means, where the constant has a value. -/
def tree (n : Int) : Expr := c.sign.elim (.number n) (.unary · (.number n))

theorem isPlainChar_constant : ∀ d ∈ c.constant.toList, isPlainChar d = true := by
  rw [constant, String.toList_ofList]
  exact List.forall_mem_cons.mpr ⟨isPlainChar_of_isDigit c.digit_spec, c.others_spec⟩

theorem isWordChar_digit : isWordChar c.digit = true := by
  rw [isWordChar_of_ascii (toNat_lt_of_isPlainChar (isPlainChar_of_isDigit c.digit_spec)),
    Char.isAlphanum, c.digit_spec, Bool.or_true]
  rfl

theorem readsLexeme_constant : ReadsLexeme c.constant.toList (.number c.constant) [] := by
  have hdigit : Text.isDigit c.digit = true := by
    rw [Text.isDigit_of_ascii (toNat_lt_of_isPlainChar (isPlainChar_of_isDigit c.digit_spec)),
      c.digit_spec]
  have hothers : ∀ d ∈ c.others, isConstantChar d = true :=
    fun d hd => isConstantChar_of_isPlainChar (c.others_spec d hd)
  refine ⟨c.digit, c.others, String.toList_ofList, isSeparator_of_isWordChar c.isWordChar_digit, ?_⟩
  rw [lexeme, if_pos hdigit, List.append_nil, numberLexeme,
    List.dropWhile_eq_nil_iff.mpr hothers, List.takeWhile_eq_self_iff.mpr hothers]
  rfl

theorem tokensFrom_separators {separators : List Char}
    (h : ∀ d ∈ separators, Text.isSeparator d = true) (rest : List Char) :
    ∀ position, ∃ position',
      tokensFrom position (separators ++ rest) = tokensFrom position' rest := by
  induction separators with
  | nil => exact fun position => ⟨position, rfl⟩
  | cons d separators ih =>
      intro position
      obtain ⟨hd, hseparators⟩ := List.forall_mem_cons.mp h
      obtain ⟨position', htokens⟩ := ih hseparators (position + 1)
      exact ⟨position', by rw [List.cons_append, tokensFrom_separator hd, htokens]⟩

/-- No symbol goes on behind the sign. -/
theorem endsSymbol : EndsSymbol (c.separators ++ c.constant.toList) := by
  have hconstant : c.constant.toList = c.digit :: c.others := String.toList_ofList
  rw [hconstant]
  cases hseparators : c.separators with
  | nil => exact endsSymbol_of_isWordChar c.isWordChar_digit c.others
  | cons d separators =>
      have hd := c.separators_spec d (hseparators ▸ List.mem_cons_self)
      simp only [Text.isSeparator, Bool.or_eq_true, beq_iff_eq] at hd
      rintro e ⟨⟩
      rcases hd with (rfl | rfl) | rfl <;> decide

/-- The tokens of the text are the sign and the constant. -/
theorem tokenize_text : ∃ position position',
    tokenize c.text = .ok (c.sign.elim [] (fun op => [⟨.symbol op.symbol, position⟩]) ++
      [⟨.number c.constant, position'⟩]) := by
  have hread := c.readsLexeme_constant
  rw [tokenize, text, String.toList_ofList]
  cases c.sign with
  | none =>
      obtain ⟨position, htokens⟩ := tokensFrom_separators c.separators_spec c.constant.toList 0
      refine ⟨0, position, ?_⟩
      rw [Option.elim_none, List.nil_append, htokens, hread.tokensFrom_last]
      rfl
  | some op =>
      obtain ⟨position, hsymbol⟩ :=
        (readsLexeme_symbol (unarySymbol_mem_symbols op) c.endsSymbol).tokensFrom 0
      obtain ⟨position', htokens⟩ :=
        tokensFrom_separators c.separators_spec c.constant.toList position
      refine ⟨0, position', ?_⟩
      rw [Option.elim_some, hsymbol, htokens, hread.tokensFrom_last]
      rfl

/-- **A constant that has a value is parsed into it**, behind its sign. -/
theorem parse_text {n : Int} (h : Arith.constant c.text c.constant = .ok n) :
    parse c.text = .ok (c.tree n) := by
  obtain ⟨position, position', htokenize⟩ := c.tokenize_text
  rw [tree]
  cases hsign : c.sign with
  | none =>
      rw [hsign] at htokenize
      exact parseNested_of_readBack htokenize (readBack_number h position') (List.cons_ne_nil _ _)
  | some op =>
      rw [hsign] at htokenize
      apply parseNested_of_readBack htokenize _ (List.cons_ne_nil _ _)
      exact readBack_unary (readBack_number h position') (Layer.rank_le _) op position

/-- **A constant that has no value ends the parsing** with its own error. -/
theorem parse_text_error {fault : Fault} (h : Arith.constant c.text c.constant = .error fault) :
    parse c.text = .error fault := by
  obtain ⟨position, position', htokenize⟩ := c.tokenize_text
  have hprimary : ∀ operand, primary c.text (parseNested c.text.length) operand
      [⟨.number c.constant, position'⟩] = .error fault := by
    intro operand
    unfold primary
    rw [bind_eq_of_ok (get_eq _)]
    dsimp only
    rw [h]
    rfl
  cases hsign : c.sign with
  | none =>
      rw [hsign] at htokenize
      exact parse_eq_of_error htokenize (List.cons_ne_nil _ _) (signed_eq_of_error rfl hprimary 62)
  | some op =>
      rw [hsign] at htokenize
      apply parse_eq_of_error htokenize (List.cons_ne_nil _ _)
      show signed c.text _ 63 (⟨.symbol op.symbol, position⟩ :: _) = _
      rw [signed_sign]
      exact bind_eq_of_error _ (signed_eq_of_error rfl hprimary 61)

end SignedConstant

end ShellExpansion.Arith
