import ShellExpansion.Proofs.Parameter.Elements
import ShellExpansion.Proofs.Parameter.Splitting

/-! # Writing parameter expansions

`Parameter.text` writes a parameter expansion down.  The operators have prefixes in common, so a
word that begins with the wrong character changes the operator that is read in front of it; an
operation is `Operation.Canonical` if that does not happen, and no other operation is read back from
its text (`operation?_text_iff`).  An expansion that is `Parameter.Canonical` is read back from its
text (`Parameter.parse_canonical`). -/

namespace ShellExpansion

open Lexical

/-! ### Operations -/

/-- The operator for a missing parameter. -/
def MissingAction.symbol : MissingAction → Char
  | substitute => '-'
  | assign => '='
  | require => '?'
  | alternative => '+'

/-- The operator that removes a pattern. -/
def Side.symbol : Side → Char
  | front => '#'
  | back => '%'

/-- The operator that changes the case of letters. -/
def LetterCase.symbol : LetterCase → Char
  | upper => '^'
  | lower => ','

/-- The letter of a transformation. -/
def Transform.letter : Transform → Char
  | quote => 'Q'
  | upper => 'U'
  | lower => 'L'
  | capitalize => 'u'
  | attributes => 'a'
  | assignment => 'A'

/-- What stands behind the first slash of a replacement. -/
def Glob.Occurrence.mark : Glob.Occurrence → List Char
  | first => []
  | all => ['/']
  | start => ['#']
  | stop => ['%']

namespace Operation

/-- The characters of an operation behind the parameter; those of the operations that are written
in front of it are none. -/
def text : Operation → List Char
  | missing action checkEmpty word =>
    (if checkEmpty then [':'] else []) ++ action.symbol :: word.toList
  | substring offset none => ':' :: offset.toList
  | substring offset (some count) => ':' :: (offset.toList ++ ':' :: count.toList)
  | remove side greedy pattern =>
    side.symbol :: ((if greedy then [side.symbol] else []) ++ pattern.toList)
  | replace occurrence pattern replacement =>
    '/' :: (occurrence.mark ++ (pattern.toList ++ '/' :: replacement.toList))
  | changeCase letterCase all pattern =>
    letterCase.symbol :: ((if all then [letterCase.symbol] else []) ++ pattern.toList)
  | transform kind => ['@', kind.letter]
  | .length | names _ | keys _ => []

/-- No word of the operation belongs to the operator in front of it, or ends too early. -/
def Canonical : Operation → Prop
  | substring offset none =>
    (∀ c ∈ offset.toList.head?, Parameter.missingAction? c = none) ∧
      Parameter.ColonFree offset.toList
  | substring offset (some _) =>
    (∀ c ∈ offset.toList.head?, Parameter.missingAction? c = none) ∧
      Parameter.IsOffset offset.toList
  | remove side greedy pattern => greedy = true ∨ pattern.toList.head? ≠ some side.symbol
  | replace occurrence pattern _ =>
    Parameter.SlashFree pattern.toList ∧
      (occurrence = .first → ∃ c ∈ pattern.toList.head?, c ≠ '#' ∧ c ≠ '%')
  | changeCase letterCase all pattern =>
    all = true ∨ pattern.toList.head? ≠ some letterCase.symbol
  | missing _ _ _ | transform _ | .length | names _ | keys _ => True

end Operation

namespace Parameter

theorem transform?_letter (transform : Transform) :
    transform? transform.letter = some transform := by
  cases transform <;> rfl

/-! ### Reading operations -/

theorem operation?_missing (action : MissingAction) (checkEmpty : Bool) (word : String) :
    operation? (Operation.missing action checkEmpty word).text =
      some (some (.missing action checkEmpty word)) := by
  cases checkEmpty <;> cases action <;>
    simp [Operation.text, MissingAction.symbol, operation?, missingAction?]

/-- Behind a colon, a character of an operator for missing parameters decides. -/
theorem operation?_colon_eq_some_iff {rest : List Char} {offset : String} {length : Option String} :
    operation? (':' :: rest) = some (some (.substring offset length)) ↔
      (∀ c ∈ rest.head?, missingAction? c = none) ∧
        splitColon 0 0 rest = (offset.toList, length.map String.toList) := by
  have hsubstring : (Operation.substring (String.ofList (splitColon 0 0 rest).1)
      ((splitColon 0 0 rest).2.map String.ofList) = .substring offset length) ↔
      splitColon 0 0 rest = (offset.toList, length.map String.toList) := by
    constructor
    · intro h
      cases h
      simp [Function.comp_def]
    · intro h
      simp [h, Function.comp_def]
  cases rest with
  | nil => simpa [operation?] using hsubstring
  | cons c rest =>
      cases haction : missingAction? c with
      | none => simpa [operation?, haction] using hsubstring
      | some action => simp [operation?, haction]

/-- A mark is read as such, and a pattern that begins with one as the mark. -/
theorem replacement_eq_iff {occurrence : Glob.Occurrence} {body : List Char}
    {pattern text : String} :
    replacement (occurrence.mark ++ body) = .replace occurrence pattern text ↔
      (occurrence = .first → ∀ c ∈ body.head?, c ≠ '/' ∧ c ≠ '#' ∧ c ≠ '%') ∧
        (splitSlash? body).getD (body, []) = (pattern.toList, text.toList) := by
  have hread (occurrence : Glob.Occurrence) : (Operation.replace occurrence
      (String.ofList ((splitSlash? body).getD (body, [])).1)
      (String.ofList ((splitSlash? body).getD (body, [])).2) = .replace occurrence pattern text) ↔
      (splitSlash? body).getD (body, []) = (pattern.toList, text.toList) := by
    constructor
    · intro h
      cases h
      simp
    · intro h
      simp [h]
  cases occurrence with
  | all => simpa [Glob.Occurrence.mark, replacement] using hread .all
  | start => simpa [Glob.Occurrence.mark, replacement] using hread .start
  | stop => simpa [Glob.Occurrence.mark, replacement] using hread .stop
  | first =>
      rcases body with - | ⟨c, rest⟩
      · simpa [Glob.Occurrence.mark, replacement] using hread .first
      · by_cases hmark : c ≠ '/' ∧ c ≠ '#' ∧ c ≠ '%'
        · obtain ⟨hslash, hhash, hpercent⟩ := hmark
          simpa [Glob.Occurrence.mark, replacement, hslash, hhash, hpercent] using hread .first
        · have hother : c = '/' ∨ c = '#' ∨ c = '%' := by
            by_contra hnone
            exact hmark (by simpa only [not_or] using hnone)
          rcases hother with rfl | rfl | rfl <;> simp [Glob.Occurrence.mark, replacement]

theorem operation?_remove (side : Side) (rest : List Char) :
    operation? (side.symbol :: rest) = some (some (
      if rest.head? = some side.symbol then .remove side true (String.ofList rest.tail)
      else .remove side false (String.ofList rest))) := by
  cases side <;> rcases rest with - | ⟨c, rest⟩
  · rfl
  · by_cases hc : c = '#'
    · subst hc
      rfl
    · simp [operation?, Side.symbol, hc]
  · rfl
  · by_cases hc : c = '%'
    · subst hc
      rfl
    · simp [operation?, Side.symbol, hc]

theorem operation?_changeCase (letterCase : LetterCase) (rest : List Char) :
    operation? (letterCase.symbol :: rest) = some (some (
      if rest.head? = some letterCase.symbol then
        .changeCase letterCase true (String.ofList rest.tail)
      else .changeCase letterCase false (String.ofList rest))) := by
  cases letterCase <;> rcases rest with - | ⟨c, rest⟩
  · rfl
  · by_cases hc : c = '^'
    · subst hc
      rfl
    · simp [operation?, LetterCase.symbol, hc]
  · rfl
  · by_cases hc : c = ','
    · subst hc
      rfl
    · simp [operation?, LetterCase.symbol, hc]

theorem getD_splitSlash?_eq_iff {pattern text : List Char} :
    (splitSlash? (pattern ++ '/' :: text)).getD (pattern ++ '/' :: text, []) = (pattern, text) ↔
      SlashFree pattern := by
  rw [← @splitSlash?_eq_some_iff pattern text]
  cases splitSlash? (pattern ++ '/' :: text) with
  | some parts => exact Option.some_inj.symm
  | none => simp

/-- **An operation is read back from its text just if it is canonical.** -/
theorem operation?_text_iff {operation : Operation} (hbehind : operation.text ≠ []) :
    operation? operation.text = some (some operation) ↔ operation.Canonical := by
  cases operation with
  | missing action checkEmpty word => simp [operation?_missing, Operation.Canonical]
  | substring offset length =>
      cases length with
      | none =>
          rw [Operation.text, operation?_colon_eq_some_iff, Operation.Canonical, Option.map_none,
            splitColon_eq_none_iff]
      | some count =>
          rw [Operation.text, operation?_colon_eq_some_iff, Operation.Canonical, Option.map_some,
            splitColon_eq_some_iff]
          refine and_congr_left fun _ => ?_
          cases offset.toList with
          | nil => simp [missingAction?]
          | cons c rest => rfl
  | remove side greedy pattern =>
      cases greedy <;> simp [Operation.text, operation?_remove, Operation.Canonical]
  | replace occurrence pattern replacement =>
      have hread : operation? (Operation.replace occurrence pattern replacement).text =
        some (some (Parameter.replacement
          (occurrence.mark ++ (pattern.toList ++ '/' :: replacement.toList)))) := rfl
      rw [hread, Option.some_inj, Option.some_inj, replacement_eq_iff, getD_splitSlash?_eq_iff,
        Operation.Canonical, and_comm]
      refine and_congr_right fun hfree => imp_congr_right fun _ => ?_
      have hslash := hfree.head?_ne
      cases hpattern : pattern.toList with
      | nil => simp
      | cons c rest =>
          rw [hpattern, List.head?_cons, Ne, Option.some_inj] at hslash
          simp [hslash]
  | changeCase letterCase all pattern =>
      cases all <;> simp [Operation.text, operation?_changeCase, Operation.Canonical]
  | transform kind =>
      have hread : operation? (Operation.transform kind).text =
          (transform? kind.letter).map fun kind => some (.transform kind) := rfl
      simp [hread, transform?_letter, Operation.Canonical]
  | length | names | keys => exact absurd rfl hbehind

/-! ### Writing expansions -/

/-- The character for all elements, of which some stand side by side and some in one word. -/
def listMark (joined : Bool) : Char := if joined then '*' else '@'

/-- What stands between the braces. -/
def content (parameter : Parameter) : List Char :=
  match parameter.operation with
  | some (.names joined) => '!' :: (parameter.name.toList ++ [listMark joined])
  | some (.keys joined) => '!' :: (parameter.name.toList ++ ['[', listMark joined, ']'])
  | operation =>
    (if parameter.indirect then ['!'] else []) ++
      ((if operation = some .length then ['#'] else []) ++
        (parameter.written.toList ++ operation.elim [] Operation.text))

/-- The text of a parameter expansion. -/
def text (parameter : Parameter) : String :=
  String.ofList ('$' :: '\x7b' :: (parameter.content ++ ['\x7d']))

/-- The parameter is a variable, a positional parameter, or all of these. -/
def IsName (name : String) : Prop :=
  IsNameText name ∨ (name ≠ "" ∧ ∀ c ∈ name.toList, c.isDigit = true) ∨ name = "@" ∨ name = "*"

/-- Every part of the expansion is what its text says. -/
structure Canonical (parameter : Parameter) : Prop where
  name : IsName parameter.name
  /-- Only variables have subscripts, and a subscript ends at the bracket behind it. -/
  subscript : ∀ subscript ∈ parameter.subscript,
    IsNameText parameter.name ∧ Closes '[' ']' subscript.toList
  /-- Without an operation, all elements of a variable that is read indirectly would be its keys. -/
  indirect : parameter.indirect = true → parameter.operation ≠ some .length ∧
    (parameter.operation = none → isAllSubscript parameter.subscript = false)
  names : ∀ joined, parameter.operation = some (.names joined) →
    IsNameText parameter.name ∧ parameter.subscript = none ∧ parameter.indirect = false
  keys : ∀ joined, parameter.operation = some (.keys joined) → IsNameText parameter.name ∧
    parameter.subscript = some (String.singleton (listMark joined)) ∧ parameter.indirect = false
  operation : ∀ operation ∈ parameter.operation, operation.Canonical

/-- The text goes on no name. -/
def EndsName (after : List Char) : Prop := ∀ c ∈ after.head?, isNameChar c = false ∧ c ≠ '['

theorem endsName_nil : EndsName [] := fun c hc => by cases hc

/-- An operation behind a name begins with its operator. -/
theorem text_cases (operation : Operation) :
    operation.text = [] ∨ (∃ kind : Transform, operation.text = ['@', kind.letter]) ∨
      ∃ c rest, operation.text = c :: rest ∧ c ∈ ":-=?+#%/^,".toList := by
  cases operation with
  | missing action checkEmpty =>
      cases checkEmpty <;> cases action <;> exact .inr (.inr ⟨_, _, rfl, by decide⟩)
  | substring offset length => cases length <;> exact .inr (.inr ⟨_, _, rfl, by decide⟩)
  | remove side => cases side <;> exact .inr (.inr ⟨_, _, rfl, by decide⟩)
  | replace => exact .inr (.inr ⟨_, _, rfl, by decide⟩)
  | changeCase letterCase => cases letterCase <;> exact .inr (.inr ⟨_, _, rfl, by decide⟩)
  | transform kind => exact .inr (.inl ⟨kind, rfl⟩)
  | length | names | keys => exact .inl rfl

theorem endsName_text (operation : Operation) : EndsName operation.text := by
  obtain htext | ⟨kind, htext⟩ | ⟨c, rest, htext, hc⟩ := text_cases operation <;> rw [htext]
  · exact endsName_nil
  · rintro c ⟨⟩
    decide
  · have hsymbols : (":-=?+#%/^,".toList.all fun c =>
        isNameChar c = false ∧ c ≠ '[') = true := by decide
    rintro d ⟨⟩
    exact of_decide_eq_true (List.all_eq_true.mp hsymbols c hc)

theorem endsName_elim (operation : Option Operation) :
    EndsName (operation.elim [] Operation.text) := by
  cases operation with
  | none => exact endsName_nil
  | some operation => exact endsName_text operation

theorem text_ne_nil {operation : Operation} (hlength : operation ≠ .length)
    (hnames : ∀ joined, operation ≠ .names joined) (hkeys : ∀ joined, operation ≠ .keys joined) :
    operation.text ≠ [] := by
  cases operation with
  | missing action checkEmpty => cases checkEmpty <;> exact List.cons_ne_nil _ _
  | substring offset length => cases length <;> exact List.cons_ne_nil _ _
  | remove | replace | changeCase | transform => exact List.cons_ne_nil _ _
  | length => exact absurd rfl hlength
  | names joined => exact absurd rfl (hnames joined)
  | keys joined => exact absurd rfl (hkeys joined)

/-- No operation is written as the mark of a list is. -/
theorem text_ne_listMark (operation : Operation) (joined : Bool) :
    operation.text ≠ [listMark joined] := by
  obtain htext | ⟨kind, htext⟩ | ⟨c, rest, htext, hc⟩ := text_cases operation <;> rw [htext]
  · exact (List.cons_ne_nil _ _).symm
  · simp
  · have hsymbols : ∀ joined, listMark joined ∉ ":-=?+#%/^,".toList := by decide
    intro heq
    exact hsymbols joined ((List.cons.inj heq).1 ▸ hc)

/-- The characters that are no names at the front of an expansion. -/
def frontMarks : List Char := "#!:-=?+%/\x7d".toList

theorem IsName.exists_cons {name : String} (h : IsName name) :
    ∃ c rest, name.toList = c :: rest ∧ c ∉ frontMarks := by
  have hall : (frontMarks.all fun c => isNameStart c = false ∧ c.isDigit = false) = true := by
    decide
  have hmarks {c : Char} (hmem : c ∈ frontMarks) : isNameStart c = false ∧ c.isDigit = false :=
    of_decide_eq_true (List.all_eq_true.mp hall c hmem)
  rcases h with ⟨c, rest, hname, hc, -⟩ | ⟨hne, hdigits⟩ | rfl | rfl
  · exact ⟨c, rest, hname, fun hmem => absurd hc (by simp [(hmarks hmem).1])⟩
  · obtain ⟨c, rest, hname⟩ := List.exists_cons_of_ne_nil (mt String.toList_eq_nil_iff.mp hne)
    have hc := hdigits c (hname ▸ List.mem_cons_self)
    exact ⟨c, rest, hname, fun hmem => absurd hc (by simp [(hmarks hmem).2])⟩
  · exact ⟨'@', [], rfl, by decide⟩
  · exact ⟨'*', [], rfl, by decide⟩

/-- A name is read off the front of a text that does not go on with it. -/
theorem IsName.name?_append {name : String} (h : IsName name) {after : List Char}
    (hafter : EndsName after) : name? (name.toList ++ after) = some (name, none, after) := by
  rcases h with hname | ⟨hne, hdigits⟩ | rfl | rfl
  · exact Parameter.name?_append hname hafter
  · obtain ⟨c, rest, hname⟩ := List.exists_cons_of_ne_nil (mt String.toList_eq_nil_iff.mp hne)
    rw [hname] at hdigits ⊢
    obtain ⟨hc, hrest⟩ := List.forall_mem_cons.mp hdigits
    have hstart : isNameStart c = false := isNameStart_eq_false_of_isDigit hc
    have hstop : ∀ d ∈ after.head?, d.isDigit = false := by
      intro d hd
      have hchar := (hafter d hd).1
      simp only [isNameChar, Char.isAlphanum, Bool.or_eq_false_iff] at hchar
      exact hchar.1.2
    rw [List.cons_append, name?, if_neg (by simp [hstart]), if_pos hc,
      takeWhile_append_of_head? hrest hstop, dropWhile_append_of_head? hrest hstop, ← hname,
      String.ofList_toList]
  · rfl
  · rfl

/-! ### The mark of indirect expansions -/

theorem content?_mark_keys {cs : List Char} {name : String} {joined : Bool}
    (hread : name? cs = some (name, some (String.singleton (listMark joined)), [])) :
    content? ('!' :: cs) =
      some ⟨name, some (String.singleton (listMark joined)), false, some (.keys joined)⟩ := by
  cases cs with
  | nil => cases hread
  | cons c rest =>
      rw [content?, hread]
      cases joined <;> rfl

theorem content?_mark {cs after : List Char} {name : String} {subscript : Option String}
    (hread : name? cs = some (name, subscript, after))
    (hkeys : isAllSubscript subscript = true → after ≠ []) :
    content? ('!' :: cs) = match nameAndStar? cs with
      | some (name, joined) => some ⟨name, none, false, some (.names joined)⟩
      | none => named? true cs := by
  cases cs with
  | nil => cases hread
  | cons c rest =>
      rw [content?, hread]
      split
      · next heq =>
          cases heq
          exact absurd rfl (hkeys rfl)
      · next heq =>
          cases heq
          exact absurd rfl (hkeys rfl)
      · rfl

/-- A list of names is a name and its mark. -/
theorem name?_of_nameAndStar? {cs : List Char} {name : String} {joined : Bool}
    (h : nameAndStar? cs = some (name, joined)) :
    name? cs = some (name, none, [listMark joined]) := by
  cases cs with
  | nil => cases h
  | cons c rest =>
      rw [nameAndStar?] at h
      by_cases hc : isNameStart c = true
      · rw [if_pos hc] at h
        rw [name?, if_pos hc]
        dsimp only at h ⊢
        split at h
        · next hdrop =>
            cases h
            rw [hdrop]
            rfl
        · next hdrop =>
            cases h
            rw [hdrop]
            rfl
        · cases h
      · rw [if_neg hc] at h
        cases h

theorem nameAndStar?_append {name : String} (hname : IsNameText name) (joined : Bool) :
    nameAndStar? (name.toList ++ [listMark joined]) = some (name, joined) := by
  obtain ⟨c, rest, hname, hc, hrest⟩ := hname
  have hstop : ∀ d ∈ [listMark joined].head?, isNameChar d = false := by
    rintro d ⟨⟩
    cases joined <;> decide
  rw [hname, List.cons_append, nameAndStar?, if_pos hc, dropWhile_append_of_head? hrest hstop,
    takeWhile_append_of_head? hrest hstop, ← hname, String.ofList_toList]
  cases joined <;> rfl

/-! ### Whole expansions -/

variable {parameter : Parameter} (h : parameter.Canonical)

include h

/-- The name and the subscript are read off the front of a text. -/
theorem name?_written {after : List Char} (hafter : EndsName after) :
    name? (parameter.written.toList ++ after) =
      some (parameter.name, parameter.subscript, after) := by
  rw [written]
  cases hsubscript : parameter.subscript with
  | none => exact h.name.name?_append hafter
  | some subscript =>
      obtain ⟨hname, hcloses⟩ := h.subscript subscript hsubscript
      have hread := name?_subscript hname hcloses after
      rw [toList_withSubscript, List.append_assoc, List.cons_append, List.append_assoc,
        List.singleton_append, hread, String.ofList_toList]

theorem exists_written :
    ∃ c rest, parameter.written.toList = c :: rest ∧ c ∉ frontMarks := by
  obtain ⟨c, rest, hname, hc⟩ := h.name.exists_cons
  rw [written]
  cases parameter.subscript with
  | none => exact ⟨c, rest, hname, hc⟩
  | some subscript => exact ⟨c, _, by rw [toList_withSubscript, hname, List.cons_append], hc⟩

/-- A name and the operation behind it are read as they are written. -/
theorem named?_written (hbehind : ∀ operation ∈ parameter.operation, operation.text ≠ [])
    (indirect : Bool) :
    named? indirect (parameter.written.toList ++ parameter.operation.elim [] Operation.text) =
      some ⟨parameter.name, parameter.subscript, indirect, parameter.operation⟩ := by
  have hread : operation? (parameter.operation.elim [] Operation.text) =
      some parameter.operation := by
    cases hoperation : parameter.operation with
    | none => rfl
    | some operation =>
        have hcanonical := h.operation operation hoperation
        exact (operation?_text_iff (hbehind operation hoperation)).mpr hcanonical
  rw [named?, name?_written h (endsName_elim parameter.operation)]
  dsimp only
  rw [hread, Option.map_some]

theorem content?_length (hlength : parameter.operation = some .length) :
    content? ('#' :: parameter.written.toList) = some parameter := by
  obtain ⟨c, rest, hwritten, hc⟩ := exists_written h
  have hread := name?_written h endsName_nil
  rw [List.append_nil, hwritten] at hread
  have hcount : ¬followsCount c = true := by
    intro hfollows
    have hmarks : (":-=?+%/\x7d".toList.all frontMarks.contains) = true := by decide
    have hmem := List.all_eq_true.mp hmarks c (List.contains_iff_mem.mp hfollows)
    exact hc (List.contains_iff_mem.mp hmem)
  have hindirect : parameter.indirect = false :=
    Bool.eq_false_iff.mpr fun htrue => (h.indirect htrue).1 hlength
  rw [hwritten, content?, if_neg hcount, hread]
  dsimp only
  rw [← hindirect, ← hlength]

theorem content?_indirect (hindirect : parameter.indirect = true)
    (hbehind : ∀ operation ∈ parameter.operation, operation.text ≠ []) :
    content? ('!' :: (parameter.written.toList ++ parameter.operation.elim [] Operation.text)) =
      some parameter := by
  have hread := name?_written h (endsName_elim parameter.operation)
  have hkeys : isAllSubscript parameter.subscript = true →
      parameter.operation.elim [] Operation.text ≠ [] := by
    intro hall
    cases hoperation : parameter.operation with
    | none =>
        have hnone := (h.indirect hindirect).2 hoperation
        rw [hall] at hnone
        cases hnone
    | some operation => exact hbehind operation hoperation
  rw [content?_mark hread hkeys]
  cases hstar : nameAndStar? _ with
  | none =>
      dsimp only
      rw [named?_written h hbehind, ← hindirect]
  | some found =>
      have hmark := name?_of_nameAndStar? hstar
      rw [hread] at hmark
      have hbare : parameter.operation.elim [] Operation.text = [listMark found.2] :=
        (Prod.mk.inj (Prod.mk.inj (Option.some.inj hmark)).2).2
      cases hoperation : parameter.operation with
      | none =>
          rw [hoperation] at hbare
          cases hbare
      | some operation =>
          rw [hoperation] at hbare
          exact absurd hbare (text_ne_listMark operation found.2)

/-- What stands between the braces is read as it was written. -/
theorem content?_content : content? parameter.content = some parameter := by
  unfold content
  split
  · next joined hoperation =>
      obtain ⟨hname, hsubscript, hindirect⟩ := h.names joined hoperation
      have hstar := nameAndStar?_append hname joined
      rw [content?_mark (name?_of_nameAndStar? hstar) (fun hall => by cases hall), hstar]
      dsimp only
      rw [← hsubscript, ← hindirect, ← hoperation]
  · next joined hoperation =>
      obtain ⟨hname, hsubscript, hindirect⟩ := h.keys joined hoperation
      have hkeys := name?_written h endsName_nil
      rw [written, hsubscript, toList_withSubscript, List.append_nil] at hkeys
      rw [String.toList_singleton, List.singleton_append] at hkeys
      rw [content?_mark_keys hkeys, ← hsubscript, ← hindirect, ← hoperation]
  · next hnames hkeys =>
      by_cases hlength : parameter.operation = some .length
      · have hindirect : ¬parameter.indirect = true := fun htrue =>
          (h.indirect htrue).1 hlength
        have hread := content?_length h hlength
        rw [if_neg hindirect, if_pos hlength, hlength, Option.elim_some]
        rwa [Operation.text, List.append_nil]
      · have hbehind : ∀ operation ∈ parameter.operation, operation.text ≠ [] := by
          intro operation hoperation
          apply text_ne_nil
          · rintro rfl
            exact hlength hoperation
          · rintro joined rfl
            exact hnames joined hoperation
          · rintro joined rfl
            exact hkeys joined hoperation
        rw [if_neg hlength, List.nil_append]
        cases hindirect : parameter.indirect with
        | false =>
            obtain ⟨c, rest, hwritten, hc⟩ := exists_written h
            have hnamed := named?_written h hbehind false
            rw [hwritten, List.cons_append] at hnamed ⊢
            have hne {d : Char} (hd : d ∈ frontMarks) : c ≠ d := by
              rintro rfl
              exact hc hd
            rw [if_neg (by decide), List.nil_append, content?_cons (hne (by decide))
              (hne (by decide)), hnamed, ← hindirect]
        | true => exact content?_indirect h hindirect hbehind

/-- **A canonical expansion is read back from its text.** -/
theorem parse_canonical : parse parameter.text = .ok parameter := by
  have hinner : inner ('$' :: '\x7b' :: (parameter.content ++ ['\x7d'])) = parameter.content := by
    simp [inner]
  rw [parse, text, String.toList_ofList, hinner, content?_content h]

omit h in
/-- A pattern with a slash behind a backslash and one in quotes, replaced by slashes. -/
theorem parse_canonical_slashes : parse "$\x7b!to[i[0]]/\\/\"/\"$///\x7d" =
    .ok ⟨"to", some "i[0]", true, some (.replace .first "\\/\"/\"$" "//")⟩ := by
  have hname : IsNameText "to" := isNameText_of_all rfl (by decide)
  have hquoted : IsStretch ['"', '/', '"'] := .double (.char (by decide) (by decide) .nil)
  have hdollar : SlashFree ['$'] := .dollar (by decide) (by decide) .nil
  have hpattern : SlashFree "\\/\"/\"$".toList :=
    .stretch (.escaped '/') (.stretch hquoted hdollar)
  have htext : (Parameter.mk "to" (some "i[0]") true
      (some (.replace .first "\\/\"/\"$" "//"))).text = "$\x7b!to[i[0]]/\\/\"/\"$///\x7d" := rfl
  rw [← htext]
  apply parse_canonical
  constructor
  case name => exact .inl hname
  case subscript =>
    rintro subscript ⟨⟩
    exact ⟨hname, by decide⟩
  case indirect => simp
  case names => simp
  case keys => simp
  case operation =>
    rintro operation ⟨⟩
    exact ⟨hpattern, fun _ => ⟨'\\', by decide, by decide⟩⟩

end Parameter

end ShellExpansion
