import ShellExpansion.Proofs.Eval.Literal
import ShellExpansion.Proofs.Session.Running
import ShellExpansion.Proofs.Word.Pieces

/-! # Quoting and reading back

Whoever reads a quoted text reads the text: besides the removal of quotes, the expansion of words,
which changes nothing (`expandWord_quote`), brace expansion, which finds no braces in it
(`Brace.expand_quote`), and the splitting into words (`QuoteStyle.reads_back`). -/

namespace ShellExpansion

open Lexical

/-! ### Pieces of a quoted text -/

namespace Word

theorem atoms_doubleQuoteBody (inside : List Char) :
    atoms (doubleQuoteBody inside) = inside.map .char := by
  induction inside with
  | nil =>
      show atoms [] = []
      rw [atoms]
  | cons c inside ih =>
      cases hc : isDoubleEscapable c with
      | true =>
          rw [doubleQuoteBody_cons_of_pos hc, atoms, if_pos hc, ih]
          rfl
      | false =>
          obtain ⟨-, hslash, hdollar⟩ := ne_of_not_isDoubleEscapable hc
          rw [doubleQuoteBody_cons_of_neg hc, atoms, ih]
          · rfl
          · exact fun _ _ h => absurd h hslash
          · exact hdollar

/-- Nothing in a quoted text is expanded. -/
theorem isLiteral_piecesList {raw text : List Char} (h : Quotes raw text) :
    (piecesList raw).all Piece.isLiteral = true := by
  induction h with
  | nil =>
      rw [piecesList_nil]
      rfl
  | escaped c _ ih =>
      rw [piecesList]
      exact ih
  | single hinside _ ih =>
      rw [piecesList_single hinside]
      exact ih
  | double inside _ ih =>
      have hchars : (inside.map Atom.char).all Atom.isLiteral = true := by
        rw [List.all_map]
        exact List.all_eq_true.mpr fun _ _ => rfl
      rw [piecesList_double (doubleQuoted_doubleQuoteBody inside), atoms_doubleQuoteBody]
      exact Bool.and_eq_true_iff.mpr ⟨hchars, ih⟩

theorem isLiteral_quote (style : QuoteStyle) (text : String) : IsLiteral (style.quote text) :=
  isLiteral_piecesList (style.quotes text)

end Word

/-! ### Expansion -/

/-- **A quoted text expands to the text**, and nothing is done to the shell. -/
theorem Evaluators.expandWord_quote (deeper : Evaluators) (style : QuoteStyle) (text : String) :
    deeper.expandWord .text (style.quote text) = pure text := by
  rw [deeper.expandWord_of_isLiteral (Word.isLiteral_quote style text), style.unquote_quote]

namespace Brace

theorem choices_shields (shields : List (List Char)) :
    choices (shields.map .shield) = .ok [shields.flatten] := by
  induction shields with
  | nil =>
      rw [List.map_nil, choices]
      rfl
  | cons shield shields ih =>
      rw [List.map_cons, choices, if_neg (by simp [Segment.isPlain]), ih]
      rfl

/-- **Brace expansion leaves a quoted text alone.** -/
theorem expand_quote (style : QuoteStyle) (text : String) :
    expand (style.quote text) = .ok [style.quote text] := by
  obtain ⟨shields, hflatten, hsegments⟩ := (style.quotes text).cutInto
  have hend := hsegments []
  rw [List.append_nil, segments_nil, List.append_nil] at hend
  rw [expand, hend, choices_shields, hflatten]
  show Except.ok [String.ofList (style.quote text).toList] = _
  rw [String.ofList_toList]

end Brace

/-! ### All readers -/

theorem Action.run_word_quote (style : QuoteStyle) (text : String) (shell : Shell) :
    (Action.word .text (style.quote text)).run shell = (.ok (.text (some text)), shell) := by
  rw [run_word, Evaluators.expandWord_quote, pure_bind]
  rfl

/-- **What is quoted is read back**: without its quotes, as a word, as the only result of brace
expansion, and as one word among others between separators. -/
theorem Lexical.QuoteStyle.reads_back (style : QuoteStyle) {separator : Char}
    (hseparator : Text.isSeparator separator = true) :
    (∀ text, unquote (style.quote text) = text ∧
      (∀ shell : Shell,
        (Action.word .text (style.quote text)).run shell = (.ok (.text (some text)), shell)) ∧
      Brace.expand (style.quote text) = .ok [style.quote text]) ∧
    ∀ texts : List String,
      fields ((String.singleton separator).intercalate (texts.map style.quote)) =
        texts.map style.quote := by
  refine ⟨fun text => ⟨style.unquote_quote text, ?_, Brace.expand_quote style text⟩, ?_⟩
  · exact Action.run_word_quote style text
  · exact style.fields_intercalate hseparator

/-- Single quotes, with spaces between the words. -/
theorem Lexical.QuoteStyle.reads_back_single_space :
    unquote (QuoteStyle.single.quote "it's $\x7b x") = "it's $\x7b x" ∧
      fields ((String.singleton ' ').intercalate (["a'b", ""].map QuoteStyle.single.quote)) =
        ["'a'\\''b'", "''"] := by
  have hspace : Text.isSeparator ' ' = true := by decide
  have hread := QuoteStyle.single.reads_back hspace
  exact ⟨(hread.1 "it's $\x7b x").1, hread.2 ["a'b", ""]⟩

end ShellExpansion
