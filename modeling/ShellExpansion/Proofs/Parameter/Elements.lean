import ShellExpansion.Eval.Word
import ShellExpansion.Proofs.Lexical.Closing
import ShellExpansion.Proofs.Text.Alphabet

/-! # Expansions of all elements

The expansion of all elements of an array, of all its keys, or of all elements quoted, is written
with the name of the array and the subscript `@` in braces.  Such a text is a parameter expansion
that stands alone, and is read as what it says (`loneParameter?_elements`, `loneParameter?_keys`,
`loneParameter?_quotedElements`). -/

namespace ShellExpansion

open Lexical

/-- The text is the name of a variable, which no line end follows. -/
structure IsPlainName (name : String) : Prop where
  identifier : isIdentifier name = true
  oneLine : '\n' ∉ name.toList

/-- The text is a letter or an underscore with letters, digits and underscores behind it. -/
def IsNameText (name : String) : Prop :=
  ∃ c rest, name.toList = c :: rest ∧ isNameStart c = true ∧ ∀ d ∈ rest, isNameChar d = true

/-- The expansion of all elements of an array. -/
def elementsText (name : String) : String := "$\x7b" ++ name ++ "[@]\x7d"

/-- The expansion of all keys of an array. -/
def keysText (name : String) : String := "$\x7b!" ++ name ++ "[@]\x7d"

/-- The expansion of all elements of an array, each of them quoted. -/
def quotedElementsText (name : String) : String := "$\x7b" ++ name ++ "[@]@Q\x7d"

/-! ### Names -/

theorem isNameChar_of_isNameStart {c : Char} (h : isNameStart c = true) : isNameChar c = true := by
  simp only [isNameStart, isNameChar, Char.isAlphanum, Bool.or_eq_true] at h ⊢
  exact h.imp_left Or.inl

theorem isNameStart_eq_false_of_isDigit {c : Char} (h : c.isDigit = true) :
    isNameStart c = false := by
  have hascii := (Text.toNat_of_isAlphanum (Bool.or_eq_true_iff.mpr (.inr h))).2
  cases hstart : isNameStart c with
  | false => rfl
  | true =>
      rcases Bool.or_eq_true_iff.mp hstart with hletter | hunderscore
      · rw [← Text.isLetter_of_ascii hascii] at hletter
        rw [← Text.isDigit_of_ascii hascii, Text.isDigit_eq_false_of_isLetter hletter] at h
        cases h
      · rw [beq_iff_eq.mp hunderscore] at h
        exact absurd h (by decide)

theorem toNat_lt_of_isNameChar {c : Char} (h : isNameChar c = true) : c.toNat < 128 := by
  rcases Bool.or_eq_true_iff.mp h with h | h
  · exact (Text.toNat_of_isAlphanum h).2
  · rw [beq_iff_eq.mp h]
    decide

/-- In other alphabets there are more characters of names; those of ASCII are the same. -/
theorem isAlphanumeric_of_isNameChar {c : Char} (h : isNameChar c = true) :
    (Text.isAlphanumeric c || c == '_') = true := by
  rw [Text.isAlphanumeric_of_ascii (toNat_lt_of_isNameChar h)]
  exact h

theorem isLetter_of_isNameStart {c : Char} (h : isNameStart c = true) :
    (Text.isLetter c || c == '_') = true := by
  rw [Text.isLetter_of_ascii (toNat_lt_of_isNameChar (isNameChar_of_isNameStart h))]
  exact h

theorem exists_of_endsName {cs : List Char} (h : endsName cs = true) :
    ∃ rest back, cs = rest ++ back ∧ (∀ c ∈ rest, isNameChar c = true) ∧
      (back = [] ∨ back = ['\n']) := by
  fun_induction endsName cs with
  | case1 => exact ⟨[], [], rfl, fun c hc => absurd hc List.not_mem_nil, .inl rfl⟩
  | case2 c =>
      rcases (Bool.or_eq_true _ _).mp h with hchar | hline
      · exact ⟨[c], [], rfl, List.forall_mem_singleton.mpr hchar, .inl rfl⟩
      · rw [beq_iff_eq] at hline
        exact ⟨[], [c], rfl, fun d hd => absurd hd List.not_mem_nil, .inr (by rw [hline])⟩
  | case3 c rest _ ih =>
      obtain ⟨hchar, hrest⟩ := (Bool.and_eq_true _ _).mp h
      obtain ⟨front, back, rfl, hfront, hback⟩ := ih hrest
      exact ⟨c :: front, back, rfl, List.forall_mem_cons.mpr ⟨hchar, hfront⟩, hback⟩

section identifiers

variable {name : String} (h : isIdentifier name = true)

include h

/-- A name is a first character and others, which a line end may follow. -/
theorem exists_of_isIdentifier : ∃ c rest back, name.toList = c :: (rest ++ back) ∧
    isNameStart c = true ∧ (∀ d ∈ rest, isNameChar d = true) ∧ (back = [] ∨ back = ['\n']) := by
  unfold isIdentifier at h
  cases hname : name.toList with
  | nil =>
      rw [hname] at h
      cases h
  | cons c rest =>
      rw [hname] at h
      simp only [Bool.and_eq_true] at h
      obtain ⟨front, back, rfl, hfront, hback⟩ := exists_of_endsName h.1.2
      exact ⟨c, front, back, rfl, h.1.1, hfront, hback⟩

/-- No other characters stand in a name. -/
theorem not_mem_of_isIdentifier {c : Char} (hchar : isNameChar c = false) (hline : c ≠ '\n') :
    c ∉ name.toList := by
  obtain ⟨first, rest, back, hname, hfirst, hrest, hback⟩ := exists_of_isIdentifier h
  have hne : ∀ d : Char, isNameChar d = true → c ≠ d := by
    rintro d hd rfl
    rw [hd] at hchar
    cases hchar
  rw [hname, List.mem_cons, List.mem_append, not_or, not_or]
  refine ⟨hne first (isNameChar_of_isNameStart hfirst), fun hmem => hne c (hrest c hmem) rfl, ?_⟩
  rcases hback with rfl | rfl
  · exact List.not_mem_nil
  · exact fun hmem => hline (List.mem_singleton.mp hmem)

/-- A name has no subscript. -/
theorem splitSubscript_of_isIdentifier : splitSubscript name = (name, none) := by
  obtain ⟨c, rest, back, hname, hc, hrest, hback⟩ := exists_of_isIdentifier h
  have hdrop : name.toList.dropWhile isNameChar = back := by
    have hchars : ∀ d ∈ c :: rest, isNameChar d = true :=
      List.forall_mem_cons.mpr ⟨isNameChar_of_isNameStart hc, hrest⟩
    rw [hname, ← List.cons_append, List.dropWhile_append_of_pos hchars]
    rcases hback with rfl | rfl <;> rfl
  unfold splitSubscript
  rw [hdrop]
  dsimp only
  split
  · rcases hback with hback | hback <;> cases hback
  · rfl

/-- A name is no parameter of another kind. -/
theorem ne_special_of_isIdentifier :
    ¬(name = "@" ∨ name = "*") ∧ Text.isDigits name = false ∧ name ≠ "#" := by
  obtain ⟨c, rest, back, hname, hc, -⟩ := exists_of_isIdentifier h
  have hne {d : Char} (hd : isNameStart d = false) : name ≠ String.singleton d := by
    rintro rfl
    rw [String.toList_singleton] at hname
    obtain rfl := (List.cons.inj hname).1
    rw [hd] at hc
    cases hc
  have hdigit : Text.isDigit c = false := by
    simp only [isNameStart, Bool.or_eq_true, beq_iff_eq] at hc
    rcases hc with halpha | rfl
    · exact Text.isDigit_eq_false_of_isLetter (by simp [Text.isLetter, halpha])
    · decide +kernel
  refine ⟨?_, ?_, hne (d := '#') (by decide)⟩
  · rintro (heq | heq)
    · exact hne (d := '@') (by decide) heq
    · exact hne (d := '*') (by decide) heq
  · rw [Text.isDigits, hname, List.all_cons, hdigit, Bool.false_and, Bool.and_false]

end identifiers

theorem IsNameText.forall_isNameChar {name : String} (h : IsNameText name) :
    ∀ c ∈ name.toList, isNameChar c = true := by
  obtain ⟨c, rest, hname, hc, hrest⟩ := h
  rw [hname]
  exact List.forall_mem_cons.mpr ⟨isNameChar_of_isNameStart hc, hrest⟩

namespace IsPlainName

variable {name : String}

/-- A name is a first character and others. -/
theorem exists_cons (h : IsPlainName name) : IsNameText name := by
  obtain ⟨c, rest, back, hname, hc, hrest, rfl | rfl⟩ := exists_of_isIdentifier h.identifier
  · exact ⟨c, rest, by rw [hname, List.append_nil], hc, hrest⟩
  · exact absurd (by simp [hname]) h.oneLine

theorem forall_isNameChar (h : IsPlainName name) : ∀ c ∈ name.toList, isNameChar c = true :=
  h.exists_cons.forall_isNameChar

end IsPlainName

/-! ### Parameters -/

section front

variable {p : Char → Bool} {front after : List Char} (hfront : ∀ c ∈ front, p c = true)
  (hafter : ∀ c ∈ after.head?, p c = false)

include hfront hafter

theorem takeWhile_append_of_head? : (front ++ after).takeWhile p = front := by
  rw [List.takeWhile_append_of_pos hfront]
  cases after with
  | nil => rw [List.takeWhile_nil, List.append_nil]
  | cons c after =>
      rw [List.takeWhile_cons_of_neg (Bool.eq_false_iff.mp (hafter c rfl)), List.append_nil]

theorem dropWhile_append_of_head? : (front ++ after).dropWhile p = after := by
  rw [List.dropWhile_append_of_pos hfront]
  cases after with
  | nil => rw [List.dropWhile_nil]
  | cons c after => rw [List.dropWhile_cons_of_neg (Bool.eq_false_iff.mp (hafter c rfl))]

end front

theorem isNameText_of_all {name : String} {c : Char} {rest : List Char}
    (hname : name.toList = c :: rest) (hall : (isNameStart c && rest.all isNameChar) = true) :
    IsNameText name := by
  obtain ⟨hc, hrest⟩ := Bool.and_eq_true_iff.mp hall
  exact ⟨c, rest, hname, hc, List.all_eq_true.mp hrest⟩

namespace Parameter

variable {name : String} (h : IsNameText name)

include h

/-- A name without a subscript is read off the front of a text. -/
theorem name?_append {after : List Char}
    (hafter : ∀ c ∈ after.head?, isNameChar c = false ∧ c ≠ '[') :
    name? (name.toList ++ after) = some (name, none, after) := by
  obtain ⟨c, rest, hname, hc, hrest⟩ := h
  have hstop : ∀ d ∈ after.head?, isNameChar d = false := fun d hd => (hafter d hd).1
  rw [hname, List.cons_append, name?, if_pos hc, dropWhile_append_of_head? hrest hstop,
    takeWhile_append_of_head? hrest hstop]
  dsimp only
  split
  · next heq => exact absurd rfl (hafter _ rfl).2
  · rw [← hname, String.ofList_toList]

/-- A name with a subscript is read off the front of a text. -/
theorem name?_subscript {subscript : List Char} (hsubscript : Closes '[' ']' subscript)
    (after : List Char) : name? (name.toList ++ '[' :: (subscript ++ ']' :: after)) =
      some (name, some (String.ofList subscript), after) := by
  obtain ⟨c, rest, hname, hc, hrest⟩ := h
  have hstop : ∀ d ∈ ('[' :: (subscript ++ ']' :: after)).head?, isNameChar d = false := by
    rintro d ⟨⟩
    decide
  have hclosing := hsubscript.splitClosing?_eq (by decide) after
  rw [hname, List.cons_append, name?, if_pos hc, dropWhile_append_of_head? hrest hstop,
    takeWhile_append_of_head? hrest hstop]
  show Option.map _ (splitClosing? '[' ']' (subscript ++ ']' :: after)) = _
  rw [hclosing, ← hname, String.ofList_toList]
  rfl

/-- A name with the subscript of all elements is read off the front of a text. -/
theorem name?_elements (after : List Char) :
    name? (name.toList ++ '[' :: '@' :: ']' :: after) = some (name, some "@", after) := by
  have hcloses : Closes '[' ']' ['@'] := rfl
  exact name?_subscript h hcloses after

omit h in
/-- A text that neither mark of an operator begins is neither a length nor indirect. -/
theorem content?_cons {c : Char} (hcount : c ≠ '#') (hmark : c ≠ '!') (after : List Char) :
    content? (c :: after) = named? false (c :: after) := by
  unfold content?
  split
  · next heq => exact absurd (List.cons.inj heq).1 hcount
  · next heq => exact absurd (List.cons.inj heq).1 hmark
  · rfl

omit h in
theorem content?_of_isNameStart {c : Char} (hc : isNameStart c = true) (after : List Char) :
    content? (c :: after) = named? false (c :: after) := by
  apply content?_cons
  · rintro rfl
    exact absurd hc (by decide)
  · rintro rfl
    exact absurd hc (by decide)

theorem content?_name (after : List Char) :
    content? (name.toList ++ after) = named? false (name.toList ++ after) := by
  obtain ⟨c, rest, hname, hc, -⟩ := h
  rw [hname, List.cons_append]
  exact content?_of_isNameStart hc (rest ++ after)

theorem content?_elements :
    content? (name.toList ++ ['[', '@', ']']) = some ⟨name, some "@", false, none⟩ := by
  rw [content?_name h, named?, name?_elements h []]
  rfl

theorem content?_quotedElements : content? (name.toList ++ ['[', '@', ']', '@', 'Q']) =
    some ⟨name, some "@", false, some (.transform .quote)⟩ := by
  rw [content?_name h, named?, name?_elements h ['@', 'Q']]
  rfl

theorem content?_keys : content? ('!' :: (name.toList ++ ['[', '@', ']'])) =
    some ⟨name, some "@", false, some (.keys false)⟩ := by
  have hread := name?_elements h []
  obtain ⟨c, rest, hname, -⟩ := h
  rw [hname, List.cons_append] at hread ⊢
  rw [content?, hread]
  rfl

end Parameter

/-! ### Expansions that stand alone -/

namespace Evaluators

variable {name : String} (h : IsPlainName name)

/-- A character that means nothing to the search for the brace that closes an expansion. -/
def isUnmarked (c : Char) : Bool :=
  c != '\\' && c != '\'' && c != '"' && c != '\x7b' && c != '\x7d'

/-- What stands between braces that match is the content of a lone expansion. -/
theorem loneParameter?_enclosed {content : List Char} (hcloses : Closes '\x7b' '\x7d' content) :
    loneParameter? (String.ofList ('$' :: '\x7b' :: (content ++ ['\x7d']))) =
      some ((Parameter.content? content).elim
        (.error (.substitution (.malformed (String.ofList content)))) .ok) := by
  have hclosing := hcloses.splitClosing?_eq (by decide) []
  have hinner : Parameter.inner ('$' :: '\x7b' :: (content ++ ['\x7d'])) = content := by
    simp [Parameter.inner]
  have hbare : withoutQuotes ('$' :: '\x7b' :: (content ++ ['\x7d'])) =
      '$' :: '\x7b' :: (content ++ ['\x7d']) := rfl
  rw [loneParameter?, String.toList_ofList, hbare]
  simp only [hclosing]
  rw [Parameter.parse, String.toList_ofList, hinner]
  cases Parameter.content? content <;> rfl

theorem loneParameter?_braced {content : List Char} (hcloses : Closes '\x7b' '\x7d' content)
    {parameter : Parameter} (hcontent : Parameter.content? content = some parameter) :
    loneParameter? (String.ofList ('$' :: '\x7b' :: (content ++ ['\x7d']))) =
      some (.ok parameter) := by
  rw [loneParameter?_enclosed hcloses, hcontent, Option.elim_some]

include h

omit h in
theorem passes_of_unmarked {text : List Char} (htext : text.all isUnmarked = true) :
    Passes '\x7b' '\x7d' text := by
  apply Passes.of_forall
  intro c hc
  have hunmarked := List.all_eq_true.mp htext c hc
  simp only [isUnmarked, Bool.and_eq_true, bne_iff_ne] at hunmarked
  obtain ⟨⟨⟨⟨hslash, hsingle⟩, hdouble⟩, hopener⟩, hcloser⟩ := hunmarked
  exact passes_singleton hslash hsingle hdouble hopener hcloser

omit h in
theorem passes_of_isIdentifier (hname : isIdentifier name = true) :
    Passes '\x7b' '\x7d' name.toList := by
  apply passes_of_unmarked
  apply List.all_eq_true.mpr
  intro c hc
  have hne {d : Char} (hchar : isNameChar d = false) (hline : d ≠ '\n') : (c != d) = true := by
    apply bne_iff_ne.mpr
    rintro rfl
    exact not_mem_of_isIdentifier hname hchar hline hc
  simp only [isUnmarked, hne (d := '\\') (by decide) (by decide),
    hne (d := '\'') (by decide) (by decide), hne (d := '"') (by decide) (by decide),
    hne (d := '\x7b') (by decide) (by decide), hne (d := '\x7d') (by decide) (by decide),
    Bool.and_self]

theorem passes_name : Passes '\x7b' '\x7d' name.toList := passes_of_isIdentifier h.identifier

theorem loneParameter?_elements :
    loneParameter? (elementsText name) = some (.ok ⟨name, some "@", false, none⟩) := by
  have hsubscript : ['[', '@', ']'].all isUnmarked = true := by decide
  have hpasses := (passes_name h).append (passes_of_unmarked hsubscript)
  have htext : elementsText name =
      String.ofList ('$' :: '\x7b' :: (name.toList ++ ['[', '@', ']'] ++ ['\x7d'])) := by
    rw [← String.toList_inj]
    simp [elementsText]
  rw [htext]
  exact loneParameter?_braced hpasses.closes_braces (Parameter.content?_elements h.exists_cons)

theorem loneParameter?_quotedElements : loneParameter? (quotedElementsText name) =
    some (.ok ⟨name, some "@", false, some (.transform .quote)⟩) := by
  have hsubscript : ['[', '@', ']', '@', 'Q'].all isUnmarked = true := by decide
  have hpasses := (passes_name h).append (passes_of_unmarked hsubscript)
  have htext : quotedElementsText name =
      String.ofList ('$' :: '\x7b' :: (name.toList ++ ['[', '@', ']', '@', 'Q'] ++ ['\x7d'])) := by
    rw [← String.toList_inj]
    simp [quotedElementsText]
  rw [htext]
  exact loneParameter?_braced hpasses.closes_braces
    (Parameter.content?_quotedElements h.exists_cons)

theorem loneParameter?_keys :
    loneParameter? (keysText name) = some (.ok ⟨name, some "@", false, some (.keys false)⟩) := by
  have hmark : ['!'].all isUnmarked = true := by decide
  have hsubscript : ['[', '@', ']'].all isUnmarked = true := by decide
  have hpasses := (passes_of_unmarked hmark).append
    ((passes_name h).append (passes_of_unmarked hsubscript))
  have htext : keysText name =
      String.ofList ('$' :: '\x7b' :: ('!' :: (name.toList ++ ['[', '@', ']']) ++ ['\x7d'])) := by
    rw [← String.toList_inj]
    simp [keysText]
  rw [htext]
  exact loneParameter?_braced hpasses.closes_braces (Parameter.content?_keys h.exists_cons)

end Evaluators

end ShellExpansion
