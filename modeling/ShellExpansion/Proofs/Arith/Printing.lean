import ShellExpansion.Proofs.Arith.Constant
import ShellExpansion.Proofs.Arith.Grammar
import ShellExpansion.Proofs.Lexical.Closing
import ShellExpansion.Proofs.Text.Alphabet

/-! # Printing arithmetic expressions

`Expr.lexemes` are the lexemes of a tree from left to right, and `Expr.print` writes them down with
single spaces between them.  A tree is printable (`Expr.Printable`) if its numbers are not negative,
its names are names, and every subscript is its index printed.  Its lexemes then are such as can be
told apart in a text (`Lexeme.Printable`): in particular the search for the end of a subscript
passes over all of them (`passes_spaced`). -/

namespace ShellExpansion.Arith

open ShellExpansion.Lexical

/-! ### Lexemes of a tree -/

/-- The characters of a lexeme. -/
def Lexeme.text : Lexeme → String
  | .number text => text
  | .name word none => word
  | .name word (some subscript) => word ++ "[" ++ subscript ++ "]"
  | .parameter text => text
  | .symbol text => text

/-- An assignment as it is written. -/
def assignmentSymbol : Option BinaryOp → String
  | none => "="
  | some op => op.symbol ++ "="

/-- The lexeme of a target. -/
def Target.lexeme : Target → Lexeme
  | .variable name => .name name none
  | .element array _ subscript => .name array (some subscript)
  | .keyed array subscript => .name array (some subscript)

/-- The lexemes of a tree from left to right. -/
def Expr.lexemes : Expr → List Lexeme
  | .number value => [.number (numeral value.toNat)]
  | .read target => [target.lexeme]
  | .parameter text => [.parameter text]
  | .binary op left right => left.lexemes ++ .symbol op.symbol :: right.lexemes
  | .unary op operand => .symbol op.symbol :: operand.lexemes
  | .preStep op target => [.symbol op.symbol, target.lexeme]
  | .postStep op target => [target.lexeme, .symbol op.symbol]
  | .ternary condition consequent alternate =>
    condition.lexemes ++ .symbol "?" ::
      (consequent.lexemes ++ .symbol ":" :: alternate.lexemes)
  | .assign op target value => target.lexeme :: .symbol (assignmentSymbol op) :: value.lexemes
  | .group inner => .symbol "(" :: (inner.lexemes ++ [.symbol ")"])

/-- The lexemes with single spaces between them. -/
def spaced (lexemes : List Lexeme) : String := " ".intercalate (lexemes.map Lexeme.text)

/-- The text of a tree. -/
def Expr.print (e : Expr) : String := spaced e.lexemes

theorem toList_spaced_singleton (found : Lexeme) :
    (spaced [found]).toList = found.text.toList := by
  rw [spaced, List.map_singleton, String.intercalate_singleton]

theorem toList_spaced_cons (found next : Lexeme) (more : List Lexeme) :
    (spaced (found :: next :: more)).toList =
      found.text.toList ++ ' ' :: (spaced (next :: more)).toList := by
  unfold spaced
  rw [List.map_cons, List.map_cons, String.intercalate_cons_cons, String.toList_append,
    String.toList_append, List.append_assoc]
  rfl

theorem Expr.lexemes_ne_nil (e : Expr) : e.lexemes ≠ [] := by
  cases e <;> simp [Expr.lexemes]

/-! ### Printable trees -/

/-- A letter or underscore, and letters, digits and underscores behind it. -/
def IsName (text : String) : Prop :=
  ∃ c rest, text.toList = c :: rest ∧ (Text.isLetter c || c == '_') = true ∧
    ∀ d ∈ rest, isWordChar d = true

mutual

/-- The tree can be written down: its names are names, its numbers are not negative, and its
subscripts are the texts of their indices, which the parser can read. -/
def Expr.Printable : Expr → Prop
  | .number value => 0 ≤ value
  | .read target => target.Printable
  | .parameter text => ∃ name, IsName name ∧ text = "$" ++ name
  | .binary _ left right => left.Printable ∧ right.Printable
  | .unary _ operand => operand.Printable
  | .preStep _ target => target.Printable
  | .postStep _ target => target.Printable
  | .ternary condition consequent alternate =>
    condition.Printable ∧ consequent.Printable ∧ alternate.Printable
  | .assign _ target value => target.Printable ∧ value.Printable
  | .group inner => inner.Printable

/-- The target can be written down. -/
def Target.Printable : Target → Prop
  | .variable name => IsName name
  | .element array index subscript =>
    IsName array ∧ subscript = index.print ∧ index.nesting ≤ maxNesting ∧ index.Printable
  | .keyed _ _ => False

end

/-! ### Printable lexemes -/

/-- The lexeme is one that a printable tree has. -/
def Lexeme.Printable : Lexeme → Prop
  | .number text => ∃ n, text = numeral n
  | .name word none => IsName word
  | .name word (some subscript) => IsName word ∧ Passes '[' ']' subscript.toList
  | .parameter text => ∃ name, IsName name ∧ text = "$" ++ name
  | .symbol text => text ∈ symbols

theorem printable_symbol (text : String) (h : text ∈ symbols) : (Lexeme.symbol text).Printable := h

theorem symbol_mem_symbols (op : BinaryOp) : op.symbol ∈ symbols := by
  cases op <;> decide

theorem unarySymbol_mem_symbols (op : UnaryOp) : op.symbol ∈ symbols := by
  cases op <;> decide

theorem stepSymbol_mem_symbols (op : StepOp) : op.symbol ∈ symbols := by
  cases op <;> decide

theorem assignmentSymbol_mem_symbols {op : Option BinaryOp}
    (h : ∀ binary ∈ op, binary ∈ compoundOps) : assignmentSymbol op ∈ symbols := by
  cases op with
  | none => decide
  | some binary =>
      have hall : ∀ binary ∈ compoundOps, binary.symbol ++ "=" ∈ symbols := by decide
      exact hall binary (h binary rfl)

/-! ### Texts without brackets of their own -/

/-- A character that a subscript shows no more regard than any other. -/
def IsFlat (c : Char) : Prop := c ∉ ['\\', '\'', '"', '[', ']']

theorem passes_of_isFlat {cs : List Char} (h : ∀ c ∈ cs, IsFlat c) : Passes '[' ']' cs := by
  refine .of_forall fun c hc => ?_
  have hflat := h c hc
  simp only [IsFlat, List.mem_cons, List.not_mem_nil, or_false, not_or] at hflat
  obtain ⟨hslash, hsingle, hdouble, hopener, hcloser⟩ := hflat
  exact passes_singleton hslash hsingle hdouble hopener hcloser

theorem isWordChar_of_ascii {c : Char} (hc : c.toNat < 128) :
    isWordChar c = (c.isAlphanum || c == '_') := by
  unfold isWordChar
  rw [Text.isAlphanumeric_of_ascii hc]

theorem ne_of_isWordChar {c d : Char} (h : isWordChar c = true) (hascii : d.toNat < 128)
    (hd : (d.isAlphanum || d == '_') = false) : c ≠ d := by
  rintro rfl
  rw [isWordChar_of_ascii hascii, hd] at h
  cases h

theorem isFlat_of_isWordChar {c : Char} (h : isWordChar c = true) : IsFlat c := by
  simp only [IsFlat, List.mem_cons, List.not_mem_nil, or_false, not_or]
  refine ⟨?_, ?_, ?_, ?_, ?_⟩ <;> exact ne_of_isWordChar h (by decide) (by decide)

theorem isFlat_of_mem_symbol {symbol : String} (h : symbol ∈ symbols) :
    ∀ c ∈ symbol.toList, IsFlat c := by
  have hall : ∀ symbol ∈ symbols,
      (symbol.toList.all fun c => !(['\\', '\'', '"', '[', ']'].contains c)) = true := by
    decide
  intro c hc hmem
  have hnot := List.all_eq_true.mp (hall symbol h) c hc
  rw [List.contains_iff_mem.mpr hmem] at hnot
  cases hnot

theorem isWordChar_of_isNameStart {c : Char} (h : (Text.isLetter c || c == '_') = true) :
    isWordChar c = true := by
  unfold isWordChar
  rw [Bool.or_eq_true] at h ⊢
  exact h.imp_left Text.isAlphanumeric_of_isLetter

theorem IsName.isWordChar {name : String} (h : IsName name) :
    ∀ c ∈ name.toList, isWordChar c = true := by
  obtain ⟨c, rest, hname, hc, hrest⟩ := h
  rw [hname]
  intro d hd
  rcases List.mem_cons.mp hd with rfl | hd
  · exact isWordChar_of_isNameStart hc
  · exact hrest d hd

theorem isWordChar_of_mem_numeral {n : ℕ} : ∀ c ∈ (numeral n).toList, isWordChar c = true := by
  have hdigit : ∀ d < 16, (Nat.digitChar d).toNat < 128 ∧
      ((Nat.digitChar d).isAlphanum || Nat.digitChar d == '_') = true := by decide
  have hdigits : ∀ {base : ℕ}, 1 < base → base ≤ 16 → ∀ c ∈ Nat.toDigits base n,
      isWordChar c = true := by
    intro base hbase hle c hc
    obtain ⟨d, hd, rfl⟩ := Text.exists_digitChar_of_mem_toDigits hbase hc
    obtain ⟨hascii, hword⟩ := hdigit d (Nat.lt_of_lt_of_le hd hle)
    rw [isWordChar_of_ascii hascii]
    exact hword
  intro c hc
  unfold numeral at hc
  split at hc
  · rw [Nat.toString_eq_ofList_toDigits, String.toList_ofList] at hc
    exact hdigits (by decide) (by decide) c hc
  · rw [String.toList_ofList, List.mem_cons, List.mem_cons] at hc
    rcases hc with rfl | rfl | hc
    · decide
    · decide
    · exact hdigits (by decide) (Nat.le_refl 16) c hc

/-- The search for the end of a subscript passes over the lexemes of printable trees. -/
theorem Lexeme.Printable.passes {found : Lexeme} (h : found.Printable) :
    Passes '[' ']' found.text.toList := by
  cases found with
  | number text =>
      obtain ⟨n, rfl⟩ := h
      exact passes_of_isFlat fun c hc => isFlat_of_isWordChar (isWordChar_of_mem_numeral c hc)
  | name word subscript =>
      cases subscript with
      | none => exact passes_of_isFlat fun c hc => isFlat_of_isWordChar (IsName.isWordChar h c hc)
      | some subscript =>
          obtain ⟨hname, hsubscript⟩ := h
          have hword := passes_of_isFlat fun c hc => isFlat_of_isWordChar (hname.isWordChar c hc)
          have henclosed := hsubscript.enclose (by decide) (by decide) (by decide)
          simpa [Lexeme.text] using hword.append henclosed
  | parameter text =>
      obtain ⟨name, hname, rfl⟩ := h
      refine passes_of_isFlat fun c hc => ?_
      rw [Lexeme.text, String.toList_append] at hc
      rcases List.mem_append.mp hc with hc | hc
      · rw [List.mem_singleton.mp hc]
        unfold IsFlat
        decide
      · exact isFlat_of_isWordChar (hname.isWordChar c hc)
  | symbol text => exact passes_of_isFlat (isFlat_of_mem_symbol h)

theorem passes_spaced : ∀ {lexemes : List Lexeme}, (∀ found ∈ lexemes, found.Printable) →
    Passes '[' ']' (spaced lexemes).toList
  | [], _ => .nil
  | [found], h => by
      rw [toList_spaced_singleton]
      exact (h found List.mem_cons_self).passes
  | found :: next :: more, h => by
      have hspace : Passes '[' ']' [' '] :=
        passes_singleton (by decide) (by decide) (by decide) (by decide) (by decide)
      have hmore := passes_spaced fun other hother => h other (List.mem_cons_of_mem found hother)
      rw [toList_spaced_cons]
      exact (h found List.mem_cons_self).passes.append (hspace.append hmore)

mutual

/-- The lexemes of a printable tree are printable. -/
theorem Expr.Printable.lexemes : ∀ {e : Expr}, e.Layered → e.Printable →
    ∀ found ∈ e.lexemes, found.Printable
  | .number value, _, _ => by
      intro found hfound
      rw [List.mem_singleton.mp hfound]
      exact ⟨value.toNat, rfl⟩
  | .read target, hl, h => by
      intro found hfound
      rw [List.mem_singleton.mp hfound]
      exact Target.Printable.lexeme hl h
  | .parameter text, _, h => by
      intro found hfound
      rw [List.mem_singleton.mp hfound]
      exact h
  | .binary op left right, ⟨_, hleft, hright⟩, ⟨hleft', hright'⟩ => by
      simp only [Expr.lexemes, List.forall_mem_append, List.forall_mem_cons]
      exact ⟨Expr.Printable.lexemes hleft hleft', symbol_mem_symbols op,
        Expr.Printable.lexemes hright hright'⟩
  | .unary op operand, ⟨_, hl⟩, h => by
      simp only [Expr.lexemes, List.forall_mem_cons]
      exact ⟨unarySymbol_mem_symbols op, Expr.Printable.lexemes hl h⟩
  | .preStep op target, hl, h => by
      simp only [Expr.lexemes, List.forall_mem_cons, List.not_mem_nil,
        IsEmpty.forall_iff, implies_true, and_true]
      exact ⟨stepSymbol_mem_symbols op, Target.Printable.lexeme hl h⟩
  | .postStep op target, hl, h => by
      simp only [Expr.lexemes, List.forall_mem_cons, List.not_mem_nil,
        IsEmpty.forall_iff, implies_true, and_true]
      exact ⟨Target.Printable.lexeme hl h, stepSymbol_mem_symbols op⟩
  | .ternary condition consequent alternate, ⟨_, hc, ha, hb⟩, ⟨hc', ha', hb'⟩ => by
      simp only [Expr.lexemes, List.forall_mem_append, List.forall_mem_cons]
      exact ⟨Expr.Printable.lexemes hc hc', printable_symbol "?" (by decide),
        Expr.Printable.lexemes ha ha', printable_symbol ":" (by decide),
        Expr.Printable.lexemes hb hb'⟩
  | .assign op target value, ⟨hop, _, htarget, hvalue⟩, ⟨htarget', hvalue'⟩ => by
      simp only [Expr.lexemes, List.forall_mem_cons]
      exact ⟨Target.Printable.lexeme htarget htarget', assignmentSymbol_mem_symbols hop,
        Expr.Printable.lexemes hvalue hvalue'⟩
  | .group inner, hl, h => by
      simp only [Expr.lexemes, List.forall_mem_append, List.forall_mem_cons, List.not_mem_nil,
        IsEmpty.forall_iff, implies_true, and_true]
      exact ⟨printable_symbol "(" (by decide), Expr.Printable.lexemes hl h,
        printable_symbol ")" (by decide)⟩

/-- The lexeme of a printable target is printable. -/
theorem Target.Printable.lexeme : ∀ {target : Target}, target.Layered → target.Printable →
    target.lexeme.Printable
  | .variable _, _, h => h
  | .element _ _ _, hl, ⟨harray, hsubscript, _, hindex⟩ => by
      subst hsubscript
      exact ⟨harray, passes_spaced (Expr.Printable.lexemes hl hindex)⟩

end

end ShellExpansion.Arith
