import ShellExpansion.Proofs.Eval.Indirect
import ShellExpansion.Proofs.Glob.Literal
import ShellExpansion.Proofs.Session.Lone
import ShellExpansion.Proofs.Session.Quote

/-! # Quotes in pattern words

A word that is used as a pattern is expanded in such a way that its quoted parts match only
themselves.  A quoted text is matched by this text alone (`Evaluators.matchesWord_quote`), and so is
a variable in double quotes by its value, while without quotes its value is the pattern
(`Action.run_isMatch_quoted`).  The scanner of words does not count a line end to a name, so that a
variable whose name has one cannot be written so (`Action.run_isMatch_lineEnd`). -/

namespace ShellExpansion

open Lexical

/-! ### Quoted texts -/

namespace Evaluators

open Eval Word

variable (deeper : Evaluators)

/-- Where it is used as a pattern, a quoted text expands to a pattern that spells the text. -/
theorem expandEach_pattern {raw text : List Char} (h : Quotes raw text) :
    ∃ pattern : String,
      expandEach (deeper.expandPiece .pattern) (piecesList raw) = pure pattern ∧
        Glob.Spells pattern.toList text := by
  -- the pieces are taken off one after the other, each of them with what it spells
  have hcons {piece : Piece} {pieces : List Piece} {first shown : String} {rest : List Char}
      (hpiece : deeper.expandPiece .pattern piece = pure first)
      (hfirst : Glob.Spells first.toList shown.toList)
      (ih : ∃ pattern : String, expandEach (deeper.expandPiece .pattern) pieces = pure pattern ∧
        Glob.Spells pattern.toList rest) :
      ∃ pattern : String,
        expandEach (deeper.expandPiece .pattern) (piece :: pieces) = pure pattern ∧
          Glob.Spells pattern.toList (shown.toList ++ rest) := by
    obtain ⟨pattern, hpieces, hspells⟩ := ih
    refine ⟨first ++ pattern, ?_, ?_⟩
    · rw [expandEach, hpiece, hpieces, pure_bind, pure_bind]
    · rw [String.toList_append]
      exact hfirst.append hspells
  induction h with
  | nil => exact ⟨"", by rw [piecesList_nil]; rfl, .nil⟩
  | @escaped c raw text _ ih =>
      have hpair : Glob.Spells (String.ofList ['\\', c]).toList (String.singleton c).toList := by
        rw [String.toList_ofList, String.toList_singleton]
        exact Glob.spells_pair c
      have hpiece : deeper.expandPiece .pattern (.escaped c) = pure (String.ofList ['\\', c]) := rfl
      have hfirst := hcons hpiece hpair ih
      rw [String.toList_singleton] at hfirst
      rwa [piecesList]
  | @single inside raw text hinside _ ih =>
      have hpiece : deeper.expandPiece .pattern (.single (String.ofList inside)) =
          pure (Glob.escape (String.ofList inside)) := rfl
      have hfirst := hcons hpiece (Glob.spells_escape _) ih
      rw [String.toList_ofList] at hfirst
      rwa [piecesList_single hinside]
  | @double inside raw text _ ih =>
      have hatoms : deeper.expandPiece .pattern (.double (inside.map .char)) =
          pure (Glob.escape (String.ofList inside)) := by
        have hchars : (inside.map Atom.char).all Atom.isLiteral = true := by
          rw [List.all_map]
          exact List.all_eq_true.mpr fun _ _ => rfl
        have hshown : (inside.map Atom.char).map Atom.shown = inside := by
          rw [List.map_map]
          exact List.map_id inside
        rw [expandPiece, deeper.expandEach_atoms hchars, hshown, pure_bind]
        rfl
      have hfirst := hcons hatoms (Glob.spells_escape _) ih
      rw [String.toList_ofList] at hfirst
      rwa [piecesList_double (doubleQuoted_doubleQuoteBody inside), atoms_doubleQuoteBody]

/-- **A quoted text is matched by the text alone**, and nothing is done to the shell. -/
theorem matchesWord_quote (style : QuoteStyle) (text subject : String) :
    deeper.matchesWord subject (style.quote text) = pure (decide (subject = text)) := by
  obtain ⟨pattern, hpattern, hspells⟩ := deeper.expandEach_pattern (style.quotes text)
  rw [matchesWord, expandWord, pieces, hpattern, pure_bind, Glob.isMatch_of_spells hspells]

/-! ### Variables -/

variable {name value : String} {shell : Shell}

/-- A variable expands to its value, unless that is too long. -/
theorem expandToText_variable (hname : isIdentifier name = true)
    (hvalue : shell.store.get? name = .ok (some value))
    (hlength : (value.length : Int) ≤ shell.store.limits.stringLength) :
    deeper.expandToText (Parameter.ofName name) shell = (.ok value, shell) := by
  have hreading : deeper.reading (Parameter.ofName name) shell =
      (.ok ⟨name, .one (some value)⟩, shell) := reading_variable deeper hname hvalue none
  have hwords := expandParameter_of_reading rfl hreading (fun _ => rfl) hlength
  rw [expandToText, bind_run_of_ok hwords]
  rfl

end Evaluators

/-- The name of a variable behind a dollar sign. -/
def variableText (name : String) : String := "$" ++ name

/-- The name of a variable behind a dollar sign, in double quotes. -/
def quotedVariableText (name : String) : String := "\"" ++ variableText name ++ "\""

theorem Word.pieces_quotedVariableText {name : String} (hname : IsPlainName name) :
    pieces (quotedVariableText name) = [.double [.dollar (.named name)]] := by
  have htext : (quotedVariableText name).toList = '"' :: ('$' :: name.toList ++ '"' :: []) := by
    simp [quotedVariableText, variableText]
  have hinside : DoubleQuoted ('$' :: name.toList) := by
    refine .char (by decide) (by decide) (.of_forall fun c hc => ⟨?_, ?_⟩)
    · rintro rfl
      exact not_mem_of_isIdentifier hname.identifier (by decide) (by decide) hc
    · rintro rfl
      exact not_mem_of_isIdentifier hname.identifier (by decide) (by decide) hc
  have hdollar := dollar_plainName hname (.inl rfl)
  rw [List.append_nil] at hdollar
  have hatoms : atoms ('$' :: name.toList) = [.dollar (.named name)] := by
    rw [atoms, hdollar, atoms]
  rw [pieces, htext, piecesList_double hinside, hatoms, piecesList_nil]

namespace Evaluators

open Eval Word

variable (deeper : Evaluators) {name value : String} {shell : Shell} (hname : IsPlainName name)
  (hvalue : shell.store.get? name = .ok (some value))
  (hlength : (value.length : Int) ≤ shell.store.limits.stringLength) (subject : String)

include hname hvalue hlength

/-- **A variable is a pattern** by its value. -/
theorem matchesWord_variable : deeper.matchesWord subject (variableText name) shell =
    (.ok (Glob.isMatch value subject), shell) := by
  have hvariable := deeper.expandToText_variable hname.identifier hvalue hlength
  have hempty : value ++ "" = value := String.append_empty
  have hword : deeper.expandWord .pattern (variableText name) shell = (.ok value, shell) := by
    rw [expandWord, variableText, pieces_plainName hname, expandEach, expandEach, expandPiece,
      expandDollar, bind_run_of_ok hvariable]
    show (Except.ok (value ++ ""), shell) = _
    rw [hempty]
  rw [matchesWord, bind_run_of_ok hword]
  rfl

/-- **In double quotes a variable is matched by its value alone.** -/
theorem matchesWord_quotedVariable : deeper.matchesWord subject (quotedVariableText name) shell =
    (.ok (decide (subject = value)), shell) := by
  have hvariable := deeper.expandToText_variable hname.identifier hvalue hlength
  have hempty (text : String) : text ++ "" = text := String.append_empty
  have hinside : expandEach deeper.expandAtom [.dollar (.named name)] shell =
      (.ok value, shell) := by
    rw [expandEach, expandEach, expandAtom, expandDollar, bind_run_of_ok hvariable]
    show (Except.ok (value ++ ""), shell) = _
    rw [hempty]
  have hword : deeper.expandWord .pattern (quotedVariableText name) shell =
      (.ok (Glob.escape value), shell) := by
    rw [expandWord, pieces_quotedVariableText hname, expandEach, expandEach, expandPiece,
      bind_assoc, bind_run_of_ok hinside]
    show (Except.ok (Glob.escape value ++ ""), shell) = _
    rw [hempty]
  rw [matchesWord, bind_run_of_ok hword, ← Glob.isMatch_of_spells (Glob.spells_escape value)]
  rfl

end Evaluators

/-! ### Runs -/

namespace Action

open Eval

theorem run_isMatch (pattern text : String) (shell : Shell) :
    (Action.isMatch pattern text).run shell =
      ((evaluators shell.store.limits.nesting).matchesWord text pattern >>= fun matched =>
        pure (Reply.flag matched)) shell := by
  rw [run_eq rfl, perform]

/-- **What is quoted matches only itself.**  An escaped text is matched by this text alone, and with
any pattern behind it by what consists of the text and of something that this pattern matches.  A
pattern word that is a quoted text is matched by this text alone, whatever the shell is, and changes
nothing.  So is, by its value, a variable that has one and is short enough for a result, where it
stands in double quotes behind a dollar sign; without the quotes the value is the pattern.  The name
of the variable must not end with a line end. -/
theorem run_isMatch_quoted {name value : String} {shell : Shell} (hname : isIdentifier name = true)
    (hline : name.toList.getLast? ≠ some '\n')
    (hvalue : shell.store.get? name = .ok (some value))
    (hlength : (value.length : Int) ≤ shell.store.limits.stringLength) :
    (∀ text pattern subject : String,
      Glob.isMatch (Glob.escape text ++ pattern) subject = true ↔
        ∃ rest, subject = text ++ rest ∧ Glob.isMatch pattern rest = true) ∧
    (∀ (style : QuoteStyle) (text subject : String) (shell' : Shell),
      (Action.isMatch (style.quote text) subject).run shell' =
        (.ok (.flag (decide (subject = text))), shell')) ∧
    ∀ subject : String,
      (Action.isMatch (quotedVariableText name) subject).run shell =
        (.ok (.flag (decide (subject = value))), shell) ∧
      (Action.isMatch (variableText name) subject).run shell =
        (.ok (.flag (Glob.isMatch value subject)), shell) := by
  have hplain := Evaluators.isPlainName_of_getLast? hname hline
  refine ⟨?_, ?_, fun subject => ⟨?_, ?_⟩⟩
  · exact fun text => Glob.isMatch_append_of_spells (Glob.spells_escape text)
  · intro style text subject shell'
    rw [run_isMatch, Evaluators.matchesWord_quote, pure_bind]
    rfl
  · rw [run_isMatch]
    exact bind_run_of_ok (Evaluators.matchesWord_quotedVariable _ hplain hvalue hlength subject)
  · rw [run_isMatch]
    exact bind_run_of_ok (Evaluators.matchesWord_variable _ hplain hvalue hlength subject)

/-- In a call, a reference to a variable whose value is a pattern. -/
theorem run_isMatch_quoted_reference :
    let shell : Shell :=
      ⟨⟨[⟨"f", [], Table.empty.insert "p" ⟨.reference "x", .none, 0⟩⟩],
        ⟨"global", [], Table.empty.insert "x" ⟨.scalar "[!a]*", .none, 0⟩⟩, .standard⟩, true,
        "script", 0⟩
    isIdentifier "p" = true ∧ "p".toList.getLast? ≠ some '\n' ∧
      shell.store.get? "p" = .ok (some "[!a]*") ∧
      ("[!a]*".length : Int) ≤ shell.store.limits.stringLength ∧
      Glob.isMatch (Glob.escape "[!" ++ "a]") "[!a]" = true ∧
      (Action.isMatch (QuoteStyle.single.quote "it's *") "it's *").run shell =
        (.ok (.flag true), shell) ∧
      (Action.isMatch (quotedVariableText "p") "[!a]*").run shell = (.ok (.flag true), shell) ∧
      (Action.isMatch (quotedVariableText "p") "xyz").run shell = (.ok (.flag false), shell) ∧
      (Action.isMatch (variableText "p") "xyz").run shell = (.ok (.flag true), shell) := by
  intro shell
  have hname : isIdentifier "p" = true := by decide
  have hline : "p".toList.getLast? ≠ some '\n' := by decide
  have hvalue : shell.store.get? "p" = .ok (some "[!a]*") := by decide
  have hlength : ("[!a]*".length : Int) ≤ shell.store.limits.stringLength := by decide
  have hbehind : Glob.isMatch "a]" "a]" = true := by decide +kernel
  have hpattern : Glob.isMatch "[!a]*" "xyz" = true := by decide +kernel
  obtain ⟨hescaped, hquoted, hvariable⟩ := run_isMatch_quoted hname hline hvalue hlength
  refine ⟨hname, hline, hvalue, hlength, ?_, ?_, ?_, ?_, ?_⟩
  · exact (hescaped "[!" "a]" "[!a]").mpr ⟨"a]", rfl, hbehind⟩
  · exact hquoted .single "it's *" "it's *" shell
  · exact (hvariable "[!a]*").1
  · exact (hvariable "xyz").1
  · rw [(hvariable "xyz").2, hpattern]

/-- **A variable whose name ends with a line end** is not read in double quotes: the scanner takes
the name without the line end, which is the name of another variable. -/
theorem run_isMatch_lineEnd :
    let shell : Shell :=
      ⟨⟨[], ⟨"global", [], Table.empty.insert "a\n" ⟨.scalar "x", .none, 0⟩⟩, .standard⟩, false,
        "script", 0⟩
    isIdentifier "a\n" = true ∧ shell.store.get? "a\n" = .ok (some "x") ∧
      ("x".length : Int) ≤ shell.store.limits.stringLength ∧
      (Action.isMatch (quotedVariableText "a\n") "x").run shell = (.ok (.flag false), shell) := by
  intro shell
  have hmatched : (evaluators shell.store.limits.nesting).matchesWord "x"
      (quotedVariableText "a\n") shell = (.ok false, shell) := by
    show (_ : Except Fault Bool × Shell) = _
    decide +kernel
  refine ⟨by decide, by decide, by decide, ?_⟩
  rw [run_isMatch]
  exact bind_run_of_ok hmatched

end Action

end ShellExpansion
