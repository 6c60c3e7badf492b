import ShellExpansion.ArrayLiteral
import ShellExpansion.Proofs.Lexical.Balanced
import ShellExpansion.Proofs.Lexical.Quote

/-! # Keys in brackets

A subscript that is written in quotes is closed by the bracket, or by the brace, that stands behind
it (`Quotes.passes`).  A key without quotes is read back from its brackets only if it is readable
(`ReadableKey`).  A text in front of which such a key stands is one word with it, if it is a word
itself (`ReadableKey.isField`), and an item with this key (`ReadableKey.itemOfWord_eq`). -/

namespace ShellExpansion.Lexical

variable {opener closer : Char}

/-! ### Keys in quotes -/

/-- **A quoted text is passed over** by the search for any delimiter. -/
theorem Quotes.passes {raw text : List Char} (h : Quotes raw text) : Passes opener closer raw := by
  induction h with
  | nil => exact .nil
  | escaped c _ ih => exact ih.escaped c
  | single hinside _ ih => exact .singleQuoted hinside ih
  | double inside _ ih => exact .doubleQuoted (doubleQuoted_doubleQuoteBody inside) ih

/-! ### Keys without quotes -/

/-- The key is read back from a literal in which it stands in brackets as it is. -/
structure ReadableKey (key : String) : Prop where
  /-- No quote and no backslash would be removed from it. -/
  unquote_eq : unquote key = key
  /-- Its brackets match. -/
  closes : splitClosing? '[' ']' (key.toList ++ [']']) = some (key.toList, [])
  /-- No separator in it separates words. -/
  unsplit : ∀ part ∈ segments (key.toList ++ [']']), part.isSeparator = false
  /-- No quoted section or expansion is open where it ends. -/
  ended : (segments (key.toList ++ [']'])).getLast? = some (.plain ']')

namespace ReadableKey

variable {key : String}

/-- A word with a readable key in front of it is one word. -/
theorem isField (h : ReadableKey key) {raw word : List Char} (hword : IsField raw word) :
    IsField ('[' :: (key.toList ++ ']' :: '=' :: raw))
      ('[' :: (key.toList ++ ']' :: '=' :: word)) := by
  have hopening : CutInto ['['] [.plain '['] := .plain (by decide)
  have hkey := cutInto_segments (by decide) h.ended
  have hequals : CutInto ['='] [.plain '='] := .plain (by decide)
  have hfront := (hopening.append hkey).append hequals
  have hparts : ∀ part ∈ [Segment.plain '['] ++ segments (key.toList ++ [']']) ++ [.plain '='],
      part.isSeparator = false := by
    simp only [List.forall_mem_append, List.forall_mem_singleton]
    exact ⟨⟨by decide, h.unsplit⟩, by decide⟩
  have hfield := IsField.of_cutInto hfront hparts hword
  simpa using hfield

/-- The key of an item is what stands in the brackets. -/
theorem itemOfWord_eq (h : ReadableKey key) (value : String) :
    ArrayLiteral.itemOfWord ("[" ++ key ++ "]=" ++ value) = ⟨some key, unquote value⟩ := by
  have hclosing : splitClosing? '[' ']' (key.toList ++ ']' :: '=' :: value.toList) =
      some (key.toList, '=' :: value.toList) := by
    have happend := splitClosing?_append (by decide) ('=' :: value.toList) h.closes
    simpa using happend
  have htext : ("[" ++ key ++ "]=" ++ value).toList =
      '[' :: (key.toList ++ ']' :: '=' :: value.toList) := by
    simp
  unfold ArrayLiteral.itemOfWord
  rw [htext]
  simp only [hclosing, String.ofList_toList, h.unquote_eq]

end ReadableKey

/-- The character means nothing where keys are read. -/
def isKeyChar (c : Char) : Bool :=
  !(['\\', '\'', '"', '$', '[', ']', ' ', '\t', '\n'].contains c)

theorem ReadableKey.of_forall {key : String} (h : key.toList.all isKeyChar = true) :
    ReadableKey key := by
  have hchar : ∀ c ∈ key.toList, IsBare c ∧ Text.isSeparator c = false ∧ c ≠ '[' ∧ c ≠ ']' := by
    intro c hc
    have hkey := List.all_eq_true.mp h c hc
    simp only [isKeyChar, List.contains_eq_mem, List.mem_cons, List.not_mem_nil, or_false,
      Bool.not_eq_true', decide_eq_false_iff_not, not_or] at hkey
    obtain ⟨hslash, hsingle, hdouble, hdollar, hopening, hclosing, hspace, htab, hline⟩ := hkey
    refine ⟨⟨hslash, hsingle, hdouble, hdollar⟩, ?_, hopening, hclosing⟩
    simp [Text.isSeparator, hspace, htab, hline]
  have hcut : CutInto (key.toList ++ [']']) ((key.toList ++ [']']).map .plain) := by
    refine .of_forall (List.forall_mem_append.mpr ⟨fun c hc => (hchar c hc).1, ?_⟩)
    rw [List.forall_mem_singleton]
    decide
  have hsegments : segments (key.toList ++ [']']) = (key.toList ++ [']']).map .plain := by
    have hend := hcut []
    rwa [segments_nil, List.append_nil, List.append_nil] at hend
  refine ⟨?_, ?_, ?_, ?_⟩
  · rw [unquote, unquoteBare_of_forall, String.ofList_toList]
    exact fun c hc => ⟨(hchar c hc).1.1, (hchar c hc).1.2.1, (hchar c hc).1.2.2.1⟩
  · have hpasses : Passes '[' ']' key.toList := .of_forall fun c hc =>
      passes_singleton (hchar c hc).1.1 (hchar c hc).1.2.1 (hchar c hc).1.2.2.1
        (hchar c hc).2.2.1 (hchar c hc).2.2.2
    exact hpasses.closes_brackets
  · rw [hsegments, List.forall_mem_map, List.forall_mem_append, List.forall_mem_singleton]
    exact ⟨fun c hc => (hchar c hc).2.1, by decide⟩
  · rw [hsegments, List.map_append, List.getLast?_append]
    rfl

end ShellExpansion.Lexical
