import ShellExpansion.Eval.Word
import ShellExpansion.Proofs.Arith.Range
import ShellExpansion.Proofs.Arith.SignedConstant

/-! # Plain numbers

The value of a variable that is a constant, with or without a sign in front, is read as a number
and not parsed.  The number is negated before it is brought into the range (`valueOf_text`), and the
expression in the same text brings the constant into the range and then negates it
(`evaluate_text`).  Both find the same integer, or refuse the constant with the same problem
(`valueOf_agrees_evaluate`). -/

namespace ShellExpansion

open Arith (SignedConstant)

/-! ### The text of a number -/

theorem Text.stripList_append {front : List Char} (h : ∀ c ∈ front, isBlank c = true)
    (cs : List Char) : stripList (front ++ cs) = stripList cs := by
  rw [stripList, List.dropWhile_append_of_pos h, stripList]

namespace Evaluators

variable {text : String} {c : Char} {rest digits : List Char}

/-- A text without a sign is a number as it is, or none. -/
theorem plainNumber?_unsigned (htext : text.toList = c :: rest) (hminus : c ≠ '-') (hplus : c ≠ '+')
    (hblank : Text.isBlank c = false) :
    plainNumber? text =
      if c.isDigit && rest.all fun d => d.isAlphanum || d == '#' || d == '@' || d == '_' then
        some (false, String.ofList (c :: rest))
      else none := by
  have hdrop : (c :: rest).dropWhile Text.isBlank = c :: rest := by
    rw [List.dropWhile_cons, hblank]
    rfl
  unfold plainNumber?
  rw [htext]
  split
  next negative behind hread =>
  split at hread
  · next heq => exact absurd (List.cons.inj heq).1 hminus
  · next heq => exact absurd (List.cons.inj heq).1 hplus
  · obtain ⟨rfl, rfl⟩ := Prod.mk.inj hread
    rw [hdrop]

/-- Behind a sign and blanks, the rest is a number as it is, or none. -/
theorem plainNumber?_signed {sign : Char} (hsign : sign = '+' ∨ sign = '-')
    (htext : text.toList = sign :: rest) (hdrop : rest.dropWhile Text.isBlank = c :: digits) :
    plainNumber? text =
      if c.isDigit && digits.all fun d => d.isAlphanum || d == '#' || d == '@' || d == '_' then
        some (sign == '-', String.ofList (c :: digits))
      else none := by
  unfold plainNumber?
  rw [htext]
  split
  next negative behind hread =>
  obtain rfl | rfl := hsign <;>
  · obtain ⟨rfl, rfl⟩ := Prod.mk.inj hread
    rw [hdrop]
    rfl

end Evaluators

namespace Arith.SignedConstant

variable (c : SignedConstant)

/-- The number with the sign of the text, where the constant stands for `n`. -/
def signed (n : Int) : Int := if c.sign = some .neg then -n else n

/-- The text without the separators in front. -/
def trimmed : String :=
  String.ofList (c.sign.elim [] (fun op => op.symbol.toList ++ c.separators) ++ c.constant.toList)

theorem isBlank_constant : ∀ d ∈ c.constant.toList, Text.isBlank d = false :=
  fun d hd => isBlank_of_isPlainChar (c.isPlainChar_constant d hd)

theorem toList_constant : c.constant.toList = c.digit :: c.others := String.toList_ofList

theorem strip_text : Text.strip c.text = c.trimmed := by
  rw [Text.strip, text, trimmed, String.toList_ofList]
  refine congrArg String.ofList ?_
  cases hsign : c.sign with
  | none =>
      have hblank : ∀ d ∈ c.separators, Text.isBlank d = true :=
        fun d hd => Text.isBlank_of_isSeparator (c.separators_spec d hd)
      rw [Option.elim_none, Option.elim_none, List.nil_append, Text.stripList_append hblank]
      exact Text.dropEnds_of_forall c.isBlank_constant
  | some op =>
      rw [Option.elim_some, Option.elim_some, List.append_assoc]
      apply Text.dropEnds_of_ends
      · intro d hd
        obtain rfl | rfl := c.sign_spec op hsign <;> cases hd <;> decide
      · intro d hd
        have hconstant : c.constant.toList ≠ [] := by
          rw [toList_constant]
          exact List.cons_ne_nil _ _
        rw [← List.append_assoc, List.getLast?_append_of_ne_nil _ hconstant] at hd
        exact c.isBlank_constant d (List.mem_of_getLast? hd)

/-- The sign is found, and the constant behind the separators. -/
theorem plainNumber?_trimmed :
    Evaluators.plainNumber? c.trimmed = some (c.sign == some .neg, c.constant) := by
  have hplain : (c.digit.isDigit && c.others.all fun d =>
      d.isAlphanum || d == '#' || d == '@' || d == '_') = true := by
    rw [c.digit_spec, Bool.true_and]
    exact List.all_eq_true.mpr c.others_spec
  have hdigit : Text.isBlank c.digit = false :=
    isBlank_of_isPlainChar (isPlainChar_of_isDigit c.digit_spec)
  have htext : c.trimmed.toList =
      c.sign.elim [] (fun op => op.symbol.toList ++ c.separators) ++ c.digit :: c.others := by
    rw [trimmed, String.toList_ofList, toList_constant]
  cases hsign : c.sign with
  | none =>
      have hne {sign : Char} (hsign : sign.isDigit = false) : c.digit ≠ sign := by
        rintro rfl
        rw [c.digit_spec] at hsign
        cases hsign
      rw [hsign, Option.elim_none, List.nil_append] at htext
      rw [Evaluators.plainNumber?_unsigned htext (hne (by decide)) (hne (by decide)) hdigit,
        if_pos hplain]
      rfl
  | some op =>
      have hseparators : ∀ d ∈ c.separators, Text.isBlank d = true :=
        fun d hd => Text.isBlank_of_isSeparator (c.separators_spec d hd)
      have hdrop : (c.separators ++ c.digit :: c.others).dropWhile Text.isBlank =
          c.digit :: c.others := by
        rw [List.dropWhile_append_of_pos hseparators, List.dropWhile_cons, hdigit]
        rfl
      rw [hsign, Option.elim_some, List.append_assoc] at htext
      obtain rfl | rfl := c.sign_spec op hsign
      · rw [Evaluators.plainNumber?_signed (.inl rfl) htext hdrop, if_pos hplain]
        rfl
      · rw [Evaluators.plainNumber?_signed (.inr rfl) htext hdrop, if_pos hplain]
        rfl

end Arith.SignedConstant

namespace Evaluators

open Eval

variable (c : SignedConstant)

/-- **The value of a variable is read as a number**, in the range behind its sign. -/
theorem valueOf_text (deeper : Evaluators) (source : String) :
    deeper.valueOf source (some c.text) =
      match Arith.constant (shownSource source (Text.strip c.text)) c.constant with
      | .ok n => return Arith.wrap (c.signed n)
      | .error fault => throw fault := by
  have hne : c.trimmed ≠ "" := by
    intro hempty
    have hplain := c.plainNumber?_trimmed
    rw [hempty] at hplain
    cases hplain
  unfold valueOf
  dsimp only
  rw [c.strip_text, if_neg hne, c.plainNumber?_trimmed]
  dsimp only
  cases Arith.constant (shownSource source c.trimmed) c.constant with
  | error fault => rfl
  | ok n =>
      simp only [Arith.SignedConstant.signed, beq_iff_eq]

/-- **The text as an expression**. -/
theorem evaluate_text (levels : ℕ) :
    (evaluators (levels + 1)).evaluate c.text =
      match Arith.constant c.text c.constant with
      | .ok n => return Arith.wrap (c.signed n)
      | .error fault => throw fault := by
  unfold evaluate
  cases hconstant : Arith.constant c.text c.constant with
  | error fault =>
      rw [c.parse_text_error hconstant]
  | ok n =>
      rw [c.parse_text hconstant]
      show (evaluators levels).expr c.text (c.tree n) = pure (Arith.wrap (c.signed n))
      rw [Arith.SignedConstant.tree, Arith.SignedConstant.signed]
      cases hsign : c.sign with
      | none =>
          rw [Option.elim_none, expr, if_neg (by decide)]
      | some op =>
          rw [Option.elim_some, expr, expr, pure_bind]
          obtain rfl | rfl := c.sign_spec op hsign
          · rw [if_neg (by decide)]
            rfl
          · rw [if_pos rfl, Arith.UnaryOp.apply, Arith.wrap_neg_wrap]

/-- **A number is read from the value of a variable as the expression in it is evaluated**: both
give the same integer, or refuse the constant with the same problem, and change nothing. -/
theorem valueOf_agrees_evaluate (deeper : Evaluators) (levels : ℕ) (source : String)
    (shell : Shell) :
    (∃ n, deeper.valueOf source (some c.text) shell = (.ok n, shell) ∧
        (evaluators (levels + 1)).evaluate c.text shell = (.ok n, shell)) ∨
      ∃ problem, deeper.valueOf source (some c.text) shell =
          (.error (.error (.arithmetic (shownSource source (Text.strip c.text)) problem)), shell) ∧
        (evaluators (levels + 1)).evaluate c.text shell =
          (.error (.error (.arithmetic c.text problem)), shell) := by
  have hconstant := Arith.constant_cases c.isPlainChar_constant
  rw [valueOf_text, evaluate_text]
  obtain ⟨n, hn⟩ | ⟨problem, hproblem⟩ := hconstant
  · rw [hn, hn]
    exact .inl ⟨_, rfl, rfl⟩
  · rw [hproblem, hproblem]
    exact .inr ⟨problem, rfl, rfl⟩

/-- A constant that is no octal number, behind a minus sign and a tab. -/
example : (SignedConstant.mk (some .neg) ['\t'] '0' ['8'] (by decide)
    (List.forall_mem_singleton.mpr (by decide)) (by decide)
    (List.forall_mem_singleton.mpr (by decide))).text = "-\t08" := by decide

end Evaluators

end ShellExpansion
