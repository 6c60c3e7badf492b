import ShellExpansion.Proofs.Arith.Tokenizing

/-! # Where tokens stand in a text

Each reader takes the text of its lexeme off the front and leaves the rest
(`eq_append_of_lexeme`), and symbols stand in an order in which the first one found is the longest
(`isLongestSymbol_of_symbolLexeme`).  So the tokens are laid out in the text one behind the other,
with nothing but separators between them (`laidOut_of_tokensFrom`), and cover the rest of it
(`covers_of_tokenize`). -/

namespace ShellExpansion.Arith

open ShellExpansion.Lexical

/-! ### One lexeme -/

section lexemes

variable {c : Char} {cs rest after : List Char} {found : Lexeme}

theorem eq_append_of_numberLexeme (h : numberLexeme c rest = .ok (found, after)) :
    c :: rest = found.text.toList ++ after := by
  unfold numberLexeme at h
  split at h
  · cases h
  · cases h
    rw [Lexeme.text, String.toList_ofList, List.cons_append, List.takeWhile_append_dropWhile]

theorem eq_append_of_nameLexeme (h : nameLexeme c rest = .ok (found, after)) :
    c :: rest = found.text.toList ++ after := by
  have hrest := List.takeWhile_append_dropWhile (p := isWordChar) (l := rest)
  unfold nameLexeme at h
  split at h
  · next inside hinside =>
      split at h
      · next hclosing =>
          cases h
          rw [hinside, eq_append_of_splitClosing? hclosing] at hrest
          refine (congrArg (List.cons c) hrest.symm).trans ?_
          simp [Lexeme.text]
      · cases h
  · cases h
    rw [Lexeme.text, String.toList_ofList, List.cons_append, hrest]

theorem eq_append_of_parameterLexeme (h : parameterLexeme cs = .ok (found, after)) :
    '$' :: cs = found.text.toList ++ after := by
  unfold parameterLexeme at h
  split at h
  · split at h
    · next hclosing =>
        cases h
        rw [eq_append_of_splitClosing? hclosing]
        simp [Lexeme.text]
    · cases h
  · split at h
    · next hclosing =>
        cases h
        rw [eq_append_of_splitClosing? hclosing]
        simp [Lexeme.text]
    · cases h
  · split at h
    · split at h
      · cases h
        rw [Lexeme.text, String.toList_ofList]
        rfl
      · cases h
        rfl
    · cases h
      rw [Lexeme.text, String.toList_ofList, List.cons_append, List.takeWhile_append_dropWhile]

/-- The symbol is the longest one that the text begins with. -/
structure IsLongestSymbol (symbol : String) (cs : List Char) : Prop where
  mem : symbol ∈ symbols
  begins : symbol.toList <+: cs
  longest : ∀ other ∈ symbols, other.toList <+: cs → other.length ≤ symbol.length

theorem symbols_descending :
    symbols.Pairwise fun first second => second.length ≤ first.length := by
  decide

/-- **A symbol is read as far as it goes**: no longer one stands behind another in the order in
which they are tried. -/
theorem isLongestSymbol_of_symbolLexeme {symbol : String}
    (h : symbolLexeme cs = .ok (.symbol symbol, after)) :
    IsLongestSymbol symbol cs ∧ cs = symbol.toList ++ after := by
  unfold symbolLexeme at h
  split at h
  · next first hfirst =>
      cases h
      obtain ⟨hbegins, front, back, hsymbols, hfront⟩ := List.find?_eq_some_iff_append.mp hfirst
      rw [List.isPrefixOf_iff_prefix] at hbegins
      have hdescending := symbols_descending
      rw [hsymbols, List.pairwise_append, List.pairwise_cons] at hdescending
      refine ⟨⟨List.mem_of_find?_eq_some hfirst, hbegins, fun other hother hprefix => ?_⟩, ?_⟩
      · rw [hsymbols, List.mem_append, List.mem_cons] at hother
        rcases hother with hother | rfl | hother
        · have hnot := hfront other hother
          rw [List.isPrefixOf_iff_prefix.mpr hprefix] at hnot
          cases hnot
        · exact Nat.le_refl _
        · exact hdescending.2.1.1 other hother
      · obtain ⟨behind, rfl⟩ := hbegins
        rw [← String.length_toList, List.drop_left]
  · cases h

/-- **A lexeme is taken off the front of the text.** -/
theorem eq_append_of_lexeme (h : lexeme c rest = .ok (found, after)) :
    c :: rest = found.text.toList ++ after := by
  rcases lexeme_eq_ok h with
    ⟨_, rfl, -, hread⟩ | ⟨_, _, rfl, hread⟩ | ⟨_, rfl, rfl, hread⟩ | ⟨_, rfl, hread⟩
  · exact eq_append_of_numberLexeme hread
  · exact eq_append_of_nameLexeme hread
  · exact eq_append_of_parameterLexeme hread
  · exact (isLongestSymbol_of_symbolLexeme hread).2

theorem isLongestSymbol_of_lexeme {symbol : String}
    (h : lexeme c rest = .ok (.symbol symbol, after)) : IsLongestSymbol symbol (c :: rest) := by
  rcases lexeme_eq_ok h with ⟨_, hfound, -⟩ | ⟨_, _, hfound, -⟩ | ⟨_, hfound, -⟩ | ⟨_, -, hread⟩
  · cases hfound
  · cases hfound
  · cases hfound
  · exact (isLongestSymbol_of_symbolLexeme hread).1

end lexemes

/-! ### All tokens -/

/-- The position behind a token. -/
def Token.stop (token : Token) : ℕ := token.position + token.lexeme.text.length

/-- The tokens stand in the text one behind the other, where the text begins at the position: only
separators are between them, and every symbol is the longest one at its place. -/
inductive LaidOut : ℕ → List Char → List Token → Prop
  | nil (position : ℕ) : LaidOut position [] []
  | separator {position : ℕ} {c : Char} {rest : List Char} {tokens : List Token}
      (hc : Text.isSeparator c = true) (hrest : LaidOut (position + 1) rest tokens) :
      LaidOut position (c :: rest) tokens
  | token {position : ℕ} {found : Lexeme} {rest : List Char} {tokens : List Token}
      (hpos : 0 < found.text.length)
      (hsymbol : ∀ symbol, found = .symbol symbol →
        IsLongestSymbol symbol (found.text.toList ++ rest))
      (hrest : LaidOut (position + found.text.length) rest tokens) :
      LaidOut position (found.text.toList ++ rest) (⟨found, position⟩ :: tokens)

/-- **The tokens of a text are laid out in it.** -/
theorem laidOut_of_tokensFrom {position : ℕ} {cs : List Char} {tokens : List Token}
    (h : tokensFrom position cs = .ok tokens) : LaidOut position cs tokens := by
  fun_induction tokensFrom position cs generalizing tokens with
  | case1 =>
    cases h
    exact .nil _
  | case2 position c rest hc ih => exact .separator hc (ih h)
  | case3 position c rest _ found after hfound ih =>
    obtain ⟨more, hmore, rfl⟩ := exists_of_map_eq_ok h
    have htext := eq_append_of_lexeme hfound
    have hafter := length_le_of_lexeme hfound
    have hlength := congrArg List.length htext
    rw [List.length_cons, List.length_append, String.length_toList] at hlength
    have hstop : rest.length + 1 - after.length = found.text.length := by omega
    have hlaid := ih hmore
    rw [hstop] at hlaid
    rw [htext]
    refine .token (by omega) ?_ hlaid
    rintro symbol rfl
    rw [← htext]
    exact isLongestSymbol_of_lexeme hfound
  | case4 => cases h

namespace LaidOut

variable {position : ℕ} {cs : List Char} {tokens : List Token}

theorem position_le (h : LaidOut position cs tokens) :
    ∀ token ∈ tokens, position ≤ token.position := by
  induction h with
  | nil => exact nofun
  | separator _ _ ih => exact fun token htoken => Nat.le_of_succ_le (ih token htoken)
  | token _ _ _ ih =>
      rw [List.forall_mem_cons]
      exact ⟨Nat.le_refl _, fun token htoken => Nat.le_of_add_right_le (ih token htoken)⟩

theorem disjoint (h : LaidOut position cs tokens) :
    tokens.Pairwise fun first second => first.stop ≤ second.position := by
  induction h with
  | nil => exact .nil
  | separator _ _ ih => exact ih
  | token _ _ hrest ih => exact .cons hrest.position_le ih

/-- A token stands at its position, and is not empty. -/
theorem exists_append (h : LaidOut position cs tokens) :
    ∀ token ∈ tokens, ∃ front back, cs = front ++ (token.lexeme.text.toList ++ back) ∧
      token.position = position + front.length ∧ 0 < token.lexeme.text.length ∧
      ∀ symbol, token.lexeme = .symbol symbol →
        IsLongestSymbol symbol (token.lexeme.text.toList ++ back) := by
  induction h with
  | nil => exact nofun
  | @separator position c rest tokens _ _ ih =>
      intro token htoken
      obtain ⟨front, back, rfl, hposition, hrest⟩ := ih token htoken
      refine ⟨c :: front, back, rfl, ?_, hrest⟩
      rw [hposition, List.length_cons]
      omega
  | @token position found rest tokens hpos hsymbol _ ih =>
      rw [List.forall_mem_cons]
      refine ⟨⟨[], rest, rfl, rfl, hpos, hsymbol⟩, fun token htoken => ?_⟩
      obtain ⟨front, back, rfl, hposition, hrest⟩ := ih token htoken
      refine ⟨found.text.toList ++ front, back, (List.append_assoc ..).symm, ?_, hrest⟩
      rw [hposition, List.length_append, String.length_toList]
      omega

/-- A character outside all tokens is a separator. -/
theorem isSeparator (h : LaidOut position cs tokens) :
    ∀ i c, cs[i]? = some c →
      (∀ token ∈ tokens, position + i < token.position ∨ token.stop ≤ position + i) →
      Text.isSeparator c = true := by
  induction h with
  | nil => exact nofun
  | @separator position d rest tokens hd _ ih =>
      intro i c hc houtside
      cases i with
      | zero =>
          obtain rfl : d = c := Option.some.inj hc
          exact hd
      | succ i =>
          rw [Nat.add_comm i 1, ← Nat.add_assoc] at houtside
          exact ih i c hc houtside
  | @token position found rest tokens _ _ _ ih =>
      intro i c hc houtside
      rw [List.forall_mem_cons] at houtside
      obtain ⟨hfirst, hothers⟩ := houtside
      have hbehind : found.text.length ≤ i := by
        rcases hfirst with hbefore | hstop
        · exact absurd hbefore (Nat.not_lt.mpr (Nat.le_add_right _ _))
        · exact Nat.le_of_add_le_add_left hstop
      rw [← String.length_toList] at hbehind
      rw [List.getElem?_append_right hbehind, String.length_toList] at hc
      rw [String.length_toList] at hbehind
      refine ih (i - found.text.length) c hc ?_
      rwa [Nat.add_assoc, Nat.add_sub_cancel' hbehind]

end LaidOut

/-- The tokens stand in the text in this order, and nothing of it is outside them but separators. -/
structure Covers (text : String) (tokens : List Token) : Prop where
  ascending : tokens.Pairwise fun first second => first.position < second.position
  disjoint : tokens.Pairwise fun first second => first.stop ≤ second.position
  /-- What stands at a token is its text. -/
  inPlace : ∀ token ∈ tokens,
    text.toList.extract token.position token.stop = token.lexeme.text.toList
  /-- What stands before, between and behind the tokens is a separator. -/
  separators : ∀ i c, text.toList[i]? = some c →
    (∀ token ∈ tokens, i < token.position ∨ token.stop ≤ i) → Text.isSeparator c = true
  longest : ∀ token ∈ tokens, ∀ symbol, token.lexeme = .symbol symbol →
    IsLongestSymbol symbol (text.toList.drop token.position)

/-- **The tokens of a text cover it.** -/
theorem covers_of_tokenize {text : String} {tokens : List Token}
    (h : tokenize text = .ok tokens) : Covers text tokens := by
  have hlaid := laidOut_of_tokensFrom (eq_ok_of_mapError h)
  refine ⟨?_, hlaid.disjoint, fun token htoken => ?_, fun i c hc houtside => ?_,
    fun token htoken symbol hsymbol => ?_⟩
  · refine hlaid.disjoint.imp_of_mem fun hfirst _ hstop => ?_
    obtain ⟨_, _, _, _, hpos, _⟩ := hlaid.exists_append _ hfirst
    rw [Token.stop] at hstop
    omega
  · obtain ⟨front, back, htext, hposition, -⟩ := hlaid.exists_append token htoken
    rw [Nat.zero_add] at hposition
    rw [Token.stop, htext, hposition, ← String.length_toList]
    simp
  · exact hlaid.isSeparator i c hc (by rwa [Nat.zero_add])
  · obtain ⟨front, back, htext, hposition, -, hlongest⟩ := hlaid.exists_append token htoken
    rw [Nat.zero_add] at hposition
    rw [htext, hposition, List.drop_left]
    exact hlongest symbol hsymbol

end ShellExpansion.Arith
