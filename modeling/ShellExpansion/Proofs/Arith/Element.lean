import ShellExpansion.Identifier
import ShellExpansion.Proofs.Arith.Nesting
import ShellExpansion.Proofs.Arith.RoundTrip

/-! # Elements in expressions

The name of an array with a subscript behind it, closed by its bracket, is one operand, whether the
subscript is an expression or not (`parse_element`), and can be assigned to
(`parse_element_assignment`).  Only a digit that has no value keeps it from being read
(`parse_element_notANumber`). -/

namespace ShellExpansion.Arith

open Lexical

variable {name subscript : String}

/-- A subscript that can be refused as an expression makes a target, at any allowance that it
cannot use up. -/
theorem exists_indexed_target (name : String) (h : parse subscript ≠ .error .notANumber) :
    ∃ target : Target, target.lexeme = .name name (some subscript) ∧
      ∀ n, subscript.length < n → target.Indexed (parseNested n) := by
  cases hparse : parse subscript with
  | ok inner =>
      refine ⟨.element name inner subscript, rfl, fun n hn => ?_⟩
      rw [Target.Indexed, parseNested_eq_parse hn, hparse]
  | error fault =>
      obtain ⟨problem, rfl⟩ | rfl := refuses_of_parse hparse
      · refine ⟨.keyed name subscript, rfl, fun n hn => ⟨subscript, problem, ?_⟩⟩
        rw [parseNested_eq_parse hn, hparse]
      · exact absurd hparse h

section element

variable (hname : IsName name) (hcloses : Closes '[' ']' subscript.toList) {target : Target}
  (hlexeme : target.lexeme = .name name (some subscript))
  (hindexed : ∀ n, subscript.length < n → target.Indexed (parseNested n))

theorem length_lt_withSubscript (name subscript : String) :
    subscript.length < (withSubscript name (some subscript)).length := by
  rw [← String.length_toList, ← String.length_toList, toList_withSubscript, List.length_append,
    List.length_cons, List.length_append, List.length_singleton]
  omega

include hname hcloses hlexeme hindexed

/-- **An element of an array is read**, whatever its subscript is. -/
theorem parse_element : parse (withSubscript name (some subscript)) = .ok (.read target) := by
  have hread := (readsLexeme_element hname hcloses []).tokensFrom_last 0
  rw [← toList_withSubscript, ← hlexeme] at hread
  have htokenize : tokenize (withSubscript name (some subscript)) =
      .ok [⟨target.lexeme, 0⟩] := by
    rw [tokenize, hread]
    rfl
  have htarget := hindexed _ (length_lt_withSubscript name subscript)
  exact parseNested_of_readBack htokenize (readBack_read htarget 0) (List.cons_ne_nil _ _)

/-- **An element of an array is assigned to**, whatever its subscript is. -/
theorem parse_element_assignment (c : Int) :
    parse (withSubscript name (some subscript) ++ " = " ++ integerText c) =
      .ok (.assign none target (.ofInt c)) := by
  have htext : (withSubscript name (some subscript) ++ " = " ++ integerText c).toList =
      name.toList ++ '[' :: (subscript.toList ++ [']']) ++
        ' ' :: ("=".toList ++ ' ' :: (integerText c).toList) := by
    rw [String.toList_append, String.toList_append, toList_withSubscript, List.append_assoc]
    rfl
  obtain ⟨position, helement⟩ := (readsLexeme_element hname hcloses
    (' ' :: ("=".toList ++ ' ' :: (integerText c).toList))).tokensFrom 0
  have hequals : "=" ∈ symbols := by decide
  have hends : EndsLexeme (' ' :: (integerText c).toList) := .inr ⟨_, rfl⟩
  obtain ⟨position', hsymbol⟩ :=
    (readsLexeme_symbol hequals hends.endsSymbol).tokensFrom (position + 1)
  obtain ⟨tokens, hne, hinteger, hread⟩ := tokensFrom_integerText c (position' + 1)
  have htokenize : tokenize (withSubscript name (some subscript) ++ " = " ++ integerText c) =
      .ok (⟨target.lexeme, 0⟩ :: ⟨.symbol (assignmentSymbol none), position + 1⟩ :: tokens) := by
    rw [tokenize, htext, helement, tokensFrom_separator (by decide), hsymbol,
      tokensFrom_separator (by decide), hinteger, hlexeme]
    rfl
  have hlength : subscript.length <
      (withSubscript name (some subscript) ++ " = " ++ integerText c).length := by
    have helement := length_lt_withSubscript name subscript
    rw [String.length_append, String.length_append]
    omega
  have hlayer : Layer.assignment ≤ (Expr.ofInt c).layer := by
    cases c <;> exact Nat.le_of_ble_eq_true rfl
  have hplain : ∀ binary ∈ (none : Option BinaryOp), binary ∈ compoundOps := by
    intro binary hbinary
    cases hbinary
  apply parseNested_of_readBack htokenize _ (List.cons_ne_nil _ _)
  exact readBack_assign (hindexed _ hlength) hplain (hread _ _ _) hlayer 0 (position + 1)

end element

/-! ### Faults of the first operand -/

section faults

variable {α β : Type} {tokens : List Token} {fault : Fault} {operand : Parser Expr}

theorem bind_eq_of_error {p : Parser α} (f : α → Parser β) (h : p tokens = .error fault) :
    (p >>= f) tokens = .error fault := by
  show (p tokens >>= fun result => f result.1 result.2) = _
  rw [h]
  rfl

/-- A fault of the first operand ends the reading of all levels of binary operators. -/
theorem binary_eq_of_error (h : operand tokens = .error fault) :
    binary operand tokens = .error fault := by
  have hpowers : ∀ count, powers operand count tokens = .error fault := by
    intro count
    cases count with
    | zero => exact h
    | succ count => exact bind_eq_of_error _ h
  have hlevels : ∀ levels : List (List BinaryOp),
      levels.foldr level (powers operand tokens.length) tokens = .error fault := by
    intro levels
    induction levels with
    | nil => exact hpowers _
    | cons ops levels ih => exact bind_eq_of_error _ ih
  rw [binary, bind_eq_of_ok (get_eq tokens)]
  exact hlevels binaryLevels

/-- A fault of the first operand ends the reading of the expression. -/
theorem commas_eq_of_error (text : String) (h : operand tokens = .error fault) :
    commas text operand tokens = .error fault := by
  have hassignment : assignment text operand tokens = .error fault := by
    rw [assignment, bind_eq_of_ok (get_eq tokens)]
    cases tokens.length with
    | zero => exact h
    | succ count => exact bind_eq_of_error _ h
  exact bind_eq_of_error _ hassignment

/-- A fault of the first operand ends the reading of the text. -/
theorem parse_eq_of_error {text : String} (htokenize : tokenize text = .ok tokens)
    (hne : tokens ≠ []) (h : signed text (parseNested text.length) 63 tokens = .error fault) :
    parse text = .error fault := by
  have hconditional : conditional text (parseNested text.length) maxNesting tokens =
      .error fault :=
    bind_eq_of_error _ (binary_eq_of_error h)
  have hempty : tokens.isEmpty = false := List.isEmpty_eq_false_iff.mpr hne
  have hwhole : whole text (parseNested text.length) tokens = .error fault := by
    rw [whole, bind_eq_of_ok (get_eq tokens), hempty, if_neg Bool.false_ne_true]
    exact bind_eq_of_error _ (commas_eq_of_error text hconditional)
  rw [parse, parseNested_of_tokenize htokenize, hwhole]
  rfl

/-- A fault of an operand without a sign in front ends the reading of the operand. -/
theorem signed_eq_of_error {text : String} {index : String → Except Fault Expr}
    (hsymbol : firstSymbol? tokens = none)
    (h : ∀ operand, primary text index operand tokens = .error fault) (n : ℕ) :
    signed text index (n + 1) tokens = .error fault := by
  have hnone {α : Type} (f : String → Option α) : takeSymbol? f tokens = .ok (none, tokens) := by
    apply takeSymbol?_none
    intro symbol hmem
    rw [hsymbol] at hmem
    cases hmem
  rw [signed, bind_eq_of_ok (hnone stepOf?)]
  dsimp only
  rw [bind_eq_of_ok (hnone unaryOf?)]
  exact bind_eq_of_error _ (h _)

end faults

/-! ### Digits without a value -/

/-- **A digit without a value in the subscript is no error of the expression**: it ends the reading
of the element. -/
theorem parse_element_notANumber (hname : IsName name)
    (hcloses : Closes '[' ']' subscript.toList) (h : parse subscript = .error .notANumber) :
    parse (withSubscript name (some subscript)) = .error .notANumber := by
  have hread := (readsLexeme_element hname hcloses []).tokensFrom_last 0
  rw [← toList_withSubscript] at hread
  have htokenize : tokenize (withSubscript name (some subscript)) =
      .ok [⟨.name name (some subscript), 0⟩] := by
    rw [tokenize, hread]
    rfl
  have hindex := parseNested_eq_parse (length_lt_withSubscript name subscript)
  rw [h] at hindex
  generalize withSubscript name (some subscript) = text at htokenize hindex ⊢
  have hprimary : ∀ operand, primary text (parseNested text.length) operand
      [⟨.name name (some subscript), 0⟩] = .error .notANumber := by
    intro operand
    unfold primary
    rw [bind_eq_of_ok (get_eq _)]
    dsimp only
    rw [hindex]
    rfl
  exact parse_eq_of_error htokenize (List.cons_ne_nil _ _) (signed_eq_of_error rfl hprimary 62)

end ShellExpansion.Arith
