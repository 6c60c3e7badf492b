import Mathlib.Data.List.Find
import ShellExpansion.Proofs.Arith.Printing

/-! # Tokenizing printed expressions

A lexeme of a printable tree, with a space or nothing behind it, is read as that lexeme and no more
(`readsLexeme_text`): numbers and names end at the first character that is none of theirs,
subscripts at their own bracket, and no symbol that is longer has a space in it.  Hence the tokens
of lexemes with single spaces between them are the lexemes again (`tokenize_spaced`).  Conversely,
what is read as a number begins with a digit (`isConstantText_of_tokenize`). -/

namespace ShellExpansion.Arith

open ShellExpansion.Lexical

/-! ### The end of a lexeme -/

/-- The text is over, or a space comes next. -/
def EndsLexeme (rest : List Char) : Prop := rest = [] ∨ ∃ more, rest = ' ' :: more

variable {p : Char → Bool} {word rest : List Char}

theorem takeWhile_append_of_ends (hspace : p ' ' = false) (hword : ∀ c ∈ word, p c = true)
    (hrest : EndsLexeme rest) : (word ++ rest).takeWhile p = word := by
  rw [List.takeWhile_append_of_pos hword]
  rcases hrest with rfl | ⟨more, rfl⟩
  · exact List.append_nil word
  · rw [List.takeWhile_cons, hspace]
    exact List.append_nil word

theorem dropWhile_append_of_ends (hspace : p ' ' = false) (hword : ∀ c ∈ word, p c = true)
    (hrest : EndsLexeme rest) : (word ++ rest).dropWhile p = rest := by
  rw [List.dropWhile_append_of_pos hword]
  rcases hrest with rfl | ⟨more, rfl⟩
  · rfl
  · rw [List.dropWhile_cons, hspace]
    rfl

/-- A text that begins a word and what is behind it begins the word, if what is behind begins with a
character that is not in the text. -/
theorem isPrefixOf_append_of_head : ∀ {text word : List Char}, (∀ c ∈ rest.head?, c ∉ text) →
    text.isPrefixOf (word ++ rest) = text.isPrefixOf word
  | [], _, _ => by simp
  | c :: text, [], hrest => by
      cases rest with
      | nil => rfl
      | cons d more =>
          have hd : (c == d) = false :=
            beq_false_of_ne fun e => hrest d rfl (e ▸ List.mem_cons_self)
          simp [List.isPrefixOf, hd]
  | c :: text, d :: word, hrest => by
      have htext : ∀ c ∈ rest.head?, c ∉ text :=
        fun d hd hmem => hrest d hd (List.mem_cons_of_mem c hmem)
      rw [List.cons_append, List.isPrefixOf, List.isPrefixOf, isPrefixOf_append_of_head htext]

/-- The text does not begin with a character of a symbol. -/
def EndsSymbol (rest : List Char) : Prop :=
  ∀ c ∈ rest.head?, ∀ symbol ∈ symbols, c ∉ symbol.toList

theorem EndsLexeme.endsSymbol (h : EndsLexeme rest) : EndsSymbol rest := by
  rcases h with rfl | ⟨more, rfl⟩
  · exact nofun
  · intro c hc
    cases hc
    decide

theorem endsSymbol_of_isWordChar {c : Char} (h : isWordChar c = true) (more : List Char) :
    EndsSymbol (c :: more) := by
  have hall : ∀ symbol ∈ symbols,
      (symbol.toList.all fun d => d.toNat < 128 && !(d.isAlphanum || d == '_')) = true := by decide
  intro d hd symbol hsymbol hmem
  cases hd
  have hfacts := List.all_eq_true.mp (hall symbol hsymbol) c hmem
  simp only [Bool.and_eq_true, decide_eq_true_eq, Bool.not_eq_true'] at hfacts
  rw [isWordChar_of_ascii hfacts.1, hfacts.2] at h
  cases h

/-- Which lexeme a text begins with says which reader read it. -/
theorem lexeme_eq_ok {c : Char} {after : List Char} {found : Lexeme}
    (h : lexeme c rest = .ok (found, after)) :
    (∃ text, found = .number text ∧ Text.isDigit c = true ∧
        numberLexeme c rest = .ok (found, after)) ∨
      (∃ name subscript, found = .name name subscript ∧ nameLexeme c rest = .ok (found, after)) ∨
      (∃ text, found = .parameter text ∧ c = '$' ∧ parameterLexeme rest = .ok (found, after)) ∨
      ∃ text, found = .symbol text ∧ symbolLexeme (c :: rest) = .ok (found, after) := by
  unfold lexeme at h
  split_ifs at h with hdigit _ hdollar
  · refine .inl ?_
    have hread := h
    unfold numberLexeme at h
    split at h <;> cases h
    exact ⟨_, rfl, hdigit, hread⟩
  · refine .inr (.inl ?_)
    have hread := h
    unfold nameLexeme at h
    split at h
    · split at h <;> cases h
      exact ⟨_, _, rfl, hread⟩
    · cases h
      exact ⟨_, _, rfl, hread⟩
  · refine .inr (.inr (.inl ?_))
    have hread := h
    unfold parameterLexeme at h
    split at h
    · split at h <;> cases h
      exact ⟨_, rfl, hdollar, hread⟩
    · split at h <;> cases h
      exact ⟨_, rfl, hdollar, hread⟩
    · split at h
      · split at h <;> cases h <;> exact ⟨_, rfl, hdollar, hread⟩
      · cases h
        exact ⟨_, rfl, hdollar, hread⟩
  · refine .inr (.inr (.inr ?_))
    have hread := h
    unfold symbolLexeme at h
    split at h <;> cases h
    exact ⟨_, rfl, hread⟩

/-! ### Texts of constants -/

/-- A digit and characters of constants behind it. -/
def IsConstantText (cs : List Char) : Prop :=
  ∃ c tail, cs = c :: tail ∧ Text.isDigit c = true ∧ ∀ d ∈ tail, isConstantChar d = true

/-- A text of a constant has no ASCII characters but those of constants. -/
theorem IsConstantText.not_mem {cs : List Char} (h : IsConstantText cs) {c : Char}
    (hascii : c.toNat < 128) (hc : (c.isAlphanum || c == '#' || c == '@' || c == '_') = false) :
    c ∉ cs := by
  obtain ⟨first, tail, rfl, hfirst, htail⟩ := h
  rw [List.mem_cons, not_or]
  refine ⟨?_, fun hmem => ?_⟩
  · rintro rfl
    rw [Text.isDigit_of_ascii hascii] at hfirst
    simp [Char.isAlphanum, hfirst] at hc
  · have hchar := htail c hmem
    rw [isConstantChar, Text.isAlphanumeric_of_ascii hascii, hc] at hchar
    cases hchar

theorem isConstantText_of_lexeme {c : Char} {after : List Char} {text : String}
    (h : lexeme c rest = .ok (.number text, after)) : IsConstantText text.toList := by
  rcases lexeme_eq_ok h with
    ⟨_, -, hdigit, hread⟩ | ⟨_, _, hfound, -⟩ | ⟨_, hfound, -⟩ | ⟨_, hfound, -⟩
  · unfold numberLexeme at hread
    split at hread <;> cases hread
    exact ⟨c, _, String.toList_ofList, hdigit, fun d hd => List.mem_takeWhile_imp hd⟩
  all_goals cases hfound

theorem isConstantText_of_tokensFrom {position : ℕ} {cs : List Char} {tokens : List Token}
    (h : tokensFrom position cs = .ok tokens) {token : Token} (htoken : token ∈ tokens)
    {text : String} (htext : token.lexeme = .number text) : IsConstantText text.toList := by
  fun_induction tokensFrom position cs generalizing tokens with
  | case1 =>
    cases h
    cases htoken
  | case2 position c rest _ ih => exact ih h htoken
  | case3 position c rest _ found after hfound ih =>
    obtain ⟨more, hmore, rfl⟩ := exists_of_map_eq_ok h
    rcases List.mem_cons.mp htoken with rfl | htoken
    · cases htext
      exact isConstantText_of_lexeme hfound
    · exact ih hmore htoken
  | case4 => cases h

/-- **A number among the tokens is a text of a constant.** -/
theorem isConstantText_of_tokenize {source : String} {tokens : List Token}
    (h : tokenize source = .ok tokens) {token : Token} (htoken : token ∈ tokens) {text : String}
    (htext : token.lexeme = .number text) : IsConstantText text.toList :=
  isConstantText_of_tokensFrom (eq_ok_of_mapError h) htoken htext

/-! ### Characters that begin a lexeme -/

theorem isSeparator_of_isWordChar {c : Char} (h : isWordChar c = true) :
    Text.isSeparator c = false := by
  have hspace : c ≠ ' ' := ne_of_isWordChar h (by decide) (by decide)
  have htab : c ≠ '\t' := ne_of_isWordChar h (by decide) (by decide)
  have hnewline : c ≠ '\n' := ne_of_isWordChar h (by decide) (by decide)
  simp [Text.isSeparator, hspace, htab, hnewline]

theorem isDigit_of_isNameStart {c : Char} (h : (Text.isLetter c || c == '_') = true) :
    Text.isDigit c = false := by
  rcases Bool.or_eq_true_iff.mp h with h | h
  · exact Text.isDigit_eq_false_of_isLetter h
  · rw [beq_iff_eq.mp h, Text.isDigit_of_ascii (by decide)]
    decide

theorem isConstantChar_of_isWordChar {c : Char} (h : isWordChar c = true) :
    isConstantChar c = true := by
  unfold isConstantChar
  rcases Bool.or_eq_true_iff.mp h with h | h
  · rw [h]; rfl
  · rw [h, Bool.or_true]

/-- A numeral begins with a digit. -/
theorem numeral_eq_cons (n : ℕ) :
    ∃ c tail, (numeral n).toList = c :: tail ∧ Text.isDigit c = true := by
  have hdigit : ∀ d < 10, (Nat.digitChar d).toNat < 128 ∧ (Nat.digitChar d).isDigit = true := by
    decide
  unfold numeral
  split
  · rw [Nat.toString_eq_ofList_toDigits, String.toList_ofList]
    cases h : Nat.toDigits 10 n with
    | nil => exact absurd h Nat.toDigits_ne_nil
    | cons c tail =>
        have hc : c ∈ Nat.toDigits 10 n := by rw [h]; exact List.mem_cons_self
        obtain ⟨d, hd, rfl⟩ := Text.exists_digitChar_of_mem_toDigits (by decide) hc
        exact ⟨_, tail, rfl, by rw [Text.isDigit_of_ascii (hdigit d hd).1, (hdigit d hd).2]⟩
  · rw [String.toList_ofList]
    exact ⟨'0', _, rfl, by decide⟩

/-! ### Reading one lexeme -/

theorem numberLexeme_numeral {n : ℕ} {c : Char} {tail : List Char}
    (h : (numeral n).toList = c :: tail) (hrest : EndsLexeme rest) :
    numberLexeme c (tail ++ rest) = .ok (.number (numeral n), rest) := by
  have htail : ∀ d ∈ tail, isConstantChar d = true := by
    intro d hd
    have hmem : d ∈ (numeral n).toList := by rw [h]; exact List.mem_cons_of_mem c hd
    exact isConstantChar_of_isWordChar (isWordChar_of_mem_numeral d hmem)
  have hspace : isConstantChar ' ' = false := by
    unfold isConstantChar
    rw [Text.isAlphanumeric_of_ascii (by decide)]
    decide
  have htext : String.ofList (c :: tail) = numeral n := by rw [← h, String.ofList_toList]
  unfold numberLexeme
  rw [dropWhile_append_of_ends hspace htail hrest, takeWhile_append_of_ends hspace htail hrest,
    htext]
  rcases hrest with rfl | ⟨more, rfl⟩ <;> rfl

theorem isWordChar_space : isWordChar ' ' = false := by
  rw [isWordChar_of_ascii (by decide)]
  decide

theorem nameLexeme_name {name : String} {c : Char} {tail : List Char}
    (h : name.toList = c :: tail) (htail : ∀ d ∈ tail, isWordChar d = true)
    (hrest : EndsLexeme rest) : nameLexeme c (tail ++ rest) = .ok (.name name none, rest) := by
  have htext : String.ofList (c :: tail) = name := by rw [← h, String.ofList_toList]
  unfold nameLexeme
  rw [dropWhile_append_of_ends isWordChar_space htail hrest,
    takeWhile_append_of_ends isWordChar_space htail hrest, htext]
  rcases hrest with rfl | ⟨more, rfl⟩ <;> rfl

theorem nameLexeme_element {name subscript : String} {c : Char} {tail : List Char}
    (h : name.toList = c :: tail) (htail : ∀ d ∈ tail, isWordChar d = true)
    (hcloses : Closes '[' ']' subscript.toList) (rest : List Char) :
    nameLexeme c (tail ++ '[' :: (subscript.toList ++ ']' :: rest)) =
      .ok (.name name (some subscript), rest) := by
  have hbracket : isWordChar '[' = false := by
    rw [isWordChar_of_ascii (by decide)]
    decide
  have htext : String.ofList (c :: tail) = name := by rw [← h, String.ofList_toList]
  have hclosing := hcloses.splitClosing?_eq (by decide) rest
  unfold nameLexeme
  rw [List.dropWhile_append_of_pos htail, List.takeWhile_append_of_pos htail,
    List.dropWhile_cons, List.takeWhile_cons, hbracket]
  simp only [Bool.false_eq_true, if_false, List.append_nil, hclosing, htext, String.ofList_toList]

theorem parameterLexeme_name {name : String} (h : IsName name) (hrest : EndsLexeme rest) :
    parameterLexeme (name.toList ++ rest) = .ok (.parameter ("$" ++ name), rest) := by
  have htext : String.ofList ('$' :: name.toList) = "$" ++ name := by
    rw [← String.toList_inj, String.toList_ofList, String.toList_append]
    rfl
  have htake := takeWhile_append_of_ends isWordChar_space h.isWordChar hrest
  have hdrop := dropWhile_append_of_ends isWordChar_space h.isWordChar hrest
  obtain ⟨c, tail, hname, hc, -⟩ := h
  have hword := isWordChar_of_isNameStart hc
  rw [hname] at htake hdrop htext ⊢
  unfold parameterLexeme
  split
  · next e =>
      exact absurd (List.cons.inj e).1 (ne_of_isWordChar hword (by decide) (by decide))
  · next e =>
      exact absurd (List.cons.inj e).1 (ne_of_isWordChar hword (by decide) (by decide))
  · rw [htake, hdrop]
    simp only [htext]

/-- **A symbol is read whole**, if none of its characters comes next. -/
theorem symbolLexeme_symbol {symbol : String} (h : symbol ∈ symbols) (hrest : EndsSymbol rest) :
    symbolLexeme (symbol.toList ++ rest) = .ok (.symbol symbol, rest) := by
  have hfirst : ∀ symbol ∈ symbols,
      symbols.find? (fun other => other.toList.isPrefixOf symbol.toList) = some symbol := by decide
  have hfind : symbols.find? (fun other => other.toList.isPrefixOf (symbol.toList ++ rest)) =
      some symbol := by
    rw [← hfirst symbol h]
    exact List.find?_congr fun other hother =>
      isPrefixOf_append_of_head fun c hc => hrest c hc other hother
  unfold symbolLexeme
  rw [hfind]
  dsimp only
  rw [← String.length_toList, List.drop_left]

theorem symbol_eq_cons {symbol : String} (h : symbol ∈ symbols) :
    ∃ c tail, symbol.toList = c :: tail ∧ Text.isSeparator c = false ∧ Text.isDigit c = false ∧
      (Text.isLetter c || c == '_') = false ∧ c ≠ '$' := by
  have hall : ∀ symbol ∈ symbols, (symbol.toList.all fun c => c.toNat < 128 &&
      !Text.isSeparator c && !c.isDigit && !(c.isAlpha || c == '_') && c != '$') = true := by
    decide
  cases hlist : symbol.toList with
  | nil =>
      have hpos := symbol_length_pos h
      rw [← String.length_toList, hlist] at hpos
      cases hpos
  | cons c tail =>
      have hfacts := List.all_eq_true.mp (hall symbol h) c (by rw [hlist]; exact List.mem_cons_self)
      simp only [Bool.and_eq_true, decide_eq_true_eq, Bool.not_eq_true', bne_iff_ne] at hfacts
      obtain ⟨⟨⟨⟨hascii, hseparator⟩, hdigit⟩, hletter⟩, hdollar⟩ := hfacts
      rw [← Text.isDigit_of_ascii hascii] at hdigit
      rw [← Text.isLetter_of_ascii hascii] at hletter
      exact ⟨c, tail, rfl, hseparator, hdigit, hletter, hdollar⟩

/-- The text is read as the lexeme, and nothing of the rest behind it. -/
def ReadsLexeme (text : List Char) (found : Lexeme) (rest : List Char) : Prop :=
  ∃ c tail, text = c :: tail ∧ Text.isSeparator c = false ∧
    lexeme c (tail ++ rest) = .ok (found, rest)

theorem readsLexeme_numeral (n : ℕ) (hrest : EndsLexeme rest) :
    ReadsLexeme (numeral n).toList (.number (numeral n)) rest := by
  obtain ⟨c, tail, hlist, hdigit⟩ := numeral_eq_cons n
  have hword := isWordChar_of_mem_numeral c (by rw [hlist]; exact List.mem_cons_self)
  refine ⟨c, tail, hlist, isSeparator_of_isWordChar hword, ?_⟩
  rw [lexeme, if_pos hdigit, numberLexeme_numeral hlist hrest]

theorem readsLexeme_name {name : String} (h : IsName name) (hrest : EndsLexeme rest) :
    ReadsLexeme name.toList (.name name none) rest := by
  obtain ⟨c, tail, hlist, hc, htail⟩ := h
  refine ⟨c, tail, hlist, isSeparator_of_isWordChar (isWordChar_of_isNameStart hc), ?_⟩
  rw [lexeme, isDigit_of_isNameStart hc, hc]
  exact nameLexeme_name hlist htail hrest

/-- An element ends at the bracket that closes its subscript, whatever comes next. -/
theorem readsLexeme_element {name subscript : String} (h : IsName name)
    (hcloses : Closes '[' ']' subscript.toList) (rest : List Char) :
    ReadsLexeme (name.toList ++ '[' :: (subscript.toList ++ [']'])) (.name name (some subscript))
      rest := by
  obtain ⟨c, tail, hlist, hc, htail⟩ := h
  refine ⟨c, tail ++ '[' :: (subscript.toList ++ [']']), by rw [hlist, List.cons_append],
    isSeparator_of_isWordChar (isWordChar_of_isNameStart hc), ?_⟩
  rw [lexeme, isDigit_of_isNameStart hc, hc, List.append_assoc, List.cons_append, List.append_assoc]
  exact nameLexeme_element hlist htail hcloses rest

theorem readsLexeme_parameter {name : String} (h : IsName name) (hrest : EndsLexeme rest) :
    ReadsLexeme ("$" ++ name).toList (.parameter ("$" ++ name)) rest := by
  refine ⟨'$', name.toList, String.toList_append, by decide, ?_⟩
  have hdigit : Text.isDigit '$' = false := by
    rw [Text.isDigit_of_ascii (by decide)]
    decide
  have hletter : (Text.isLetter '$' || '$' == '_') = false := by
    rw [Text.isLetter_of_ascii (by decide)]
    decide
  rw [lexeme, hdigit, hletter]
  exact parameterLexeme_name h hrest

theorem readsLexeme_symbol {symbol : String} (h : symbol ∈ symbols) (hrest : EndsSymbol rest) :
    ReadsLexeme symbol.toList (.symbol symbol) rest := by
  obtain ⟨c, tail, hlist, hseparator, hdigit, hletter, hdollar⟩ := symbol_eq_cons h
  refine ⟨c, tail, hlist, hseparator, ?_⟩
  rw [lexeme, hdigit, hletter, if_neg hdollar, ← List.cons_append, ← hlist]
  exact symbolLexeme_symbol h hrest

/-- **A lexeme of a printable tree is read whole**, and nothing of what is behind it. -/
theorem readsLexeme_text {found : Lexeme} (h : found.Printable) (hrest : EndsLexeme rest) :
    ReadsLexeme found.text.toList found rest := by
  cases found with
  | number text =>
      obtain ⟨n, rfl⟩ := h
      exact readsLexeme_numeral n hrest
  | name word subscript =>
      cases subscript with
      | none => exact readsLexeme_name h hrest
      | some subscript =>
          obtain ⟨hname, hpasses⟩ := h
          have htext : (Lexeme.name word (some subscript)).text.toList =
              word.toList ++ '[' :: (subscript.toList ++ [']']) := by
            simp [Lexeme.text]
          rw [htext]
          exact readsLexeme_element hname hpasses.closes_brackets rest
  | parameter text =>
      obtain ⟨name, hname, rfl⟩ := h
      exact readsLexeme_parameter hname hrest
  | symbol text => exact readsLexeme_symbol h hrest.endsSymbol

/-! ### Reading all lexemes -/

theorem tokensFrom_separator {c : Char} (hc : Text.isSeparator c = true) (position : ℕ) :
    tokensFrom position (c :: rest) = tokensFrom (position + 1) rest := by
  rw [tokensFrom, if_pos hc]

/-- A lexeme is the first token. -/
theorem ReadsLexeme.tokensFrom {text : List Char} {found : Lexeme} (h : ReadsLexeme text found rest)
    (position : ℕ) : ∃ position', tokensFrom position (text ++ rest) =
      (tokensFrom position' rest).map (⟨found, position⟩ :: ·) := by
  obtain ⟨c, tail, rfl, hc, hread⟩ := h
  refine ⟨position + ((tail ++ rest).length + 1 - rest.length), ?_⟩
  rw [List.cons_append, Arith.tokensFrom, hc, if_neg Bool.false_ne_true]
  split
  · next h' =>
      rw [hread] at h'
      obtain ⟨rfl, rfl⟩ := Prod.mk.inj (Except.ok.inj h')
      rfl
  · next h' => rw [hread] at h'; cases h'

/-- A lexeme with nothing behind it is the only token. -/
theorem ReadsLexeme.tokensFrom_last {text : List Char} {found : Lexeme}
    (h : ReadsLexeme text found []) (position : ℕ) :
    Arith.tokensFrom position text = .ok [⟨found, position⟩] := by
  obtain ⟨position', htokens⟩ := h.tokensFrom position
  rw [List.append_nil, Arith.tokensFrom] at htokens
  exact htokens

theorem tokensFrom_spaced : ∀ {lexemes : List Lexeme}, (∀ found ∈ lexemes, found.Printable) →
    ∀ position, ∃ tokens, tokensFrom position (spaced lexemes).toList = .ok tokens ∧
      tokens.map Token.lexeme = lexemes
  | [], _, position => ⟨[], by rw [show (spaced []).toList = [] from rfl, tokensFrom], rfl⟩
  | [found], h, position => by
      have hread := readsLexeme_text (h found List.mem_cons_self) (Or.inl rfl)
      rw [toList_spaced_singleton]
      exact ⟨_, hread.tokensFrom_last position, rfl⟩
  | found :: next :: more, h, position => by
      have hends : EndsLexeme (' ' :: (spaced (next :: more)).toList) := Or.inr ⟨_, rfl⟩
      have hread := readsLexeme_text (h found List.mem_cons_self) hends
      obtain ⟨position', hfirst⟩ := hread.tokensFrom position
      rw [toList_spaced_cons, hfirst, tokensFrom_separator (by decide)]
      obtain ⟨tokens, htokens, hmap⟩ :=
        tokensFrom_spaced (fun other hother => h other (List.mem_cons_of_mem found hother)) _
      rw [htokens]
      exact ⟨_, rfl, by rw [List.map_cons, hmap]⟩

/-- **The tokens of printed lexemes are the lexemes.** -/
theorem tokenize_spaced {lexemes : List Lexeme} (h : ∀ found ∈ lexemes, found.Printable) :
    ∃ tokens, tokenize (spaced lexemes) = .ok tokens ∧ tokens.map Token.lexeme = lexemes := by
  obtain ⟨tokens, htokens, hmap⟩ := tokensFrom_spaced h 0
  refine ⟨tokens, ?_, hmap⟩
  rw [tokenize, htokens]
  rfl

end ShellExpansion.Arith
