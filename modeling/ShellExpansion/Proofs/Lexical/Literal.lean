import ShellExpansion.Builtin.Listing
import ShellExpansion.Proofs.Lexical.Subscript

/-! # Literals that list values

A literal that lists words with spaces between them has the items that these words stand for.  If
they are quoted values, none of the items has a key (`ofText_literalText`): a quoted text does not
begin with a bracket.  If they are values with readable keys in front of them, as a listing shows
the entries of an array, the items have these keys (`ofText_itemsText`). -/

namespace ShellExpansion.ArrayLiteral

open Lexical

/-- The literal that lists words. -/
def literalText (words : List String) : String := "(" ++ " ".intercalate words ++ ")"

theorem toList_literalText (words : List String) :
    (literalText words).toList = '(' :: ((" ".intercalate words).toList ++ [')']) := by
  simp [literalText]

theorem enclosed?_parentheses (cs : List Char) : enclosed? ('(' :: (cs ++ [')'])) = some cs := by
  simp [enclosed?]

theorem stripList_parentheses (cs : List Char) :
    Text.stripList ('(' :: (cs ++ [')'])) = '(' :: (cs ++ [')']) := by
  have hopening : Text.isBlank '(' = false := by decide
  have hclosing : Text.isBlank ')' = false := by decide
  have hfront : ('(' :: (cs ++ [')'])).dropWhile Text.isBlank = '(' :: (cs ++ [')']) := by
    rw [List.dropWhile_cons, hopening]
    rfl
  have hback : ('(' :: (cs ++ [')'])).reverse.dropWhile Text.isBlank =
      ('(' :: (cs ++ [')'])).reverse := by
    simp [hclosing]
  rw [Text.stripList, hfront, hback, List.reverse_reverse]

theorem isLiteral_literalText (words : List String) : isLiteral (literalText words) = true := by
  rw [isLiteral, toList_literalText, enclosed?_parentheses]
  rfl

theorem itemOfWord_quote (style : QuoteStyle) (text : String) :
    itemOfWord (style.quote text) = ⟨none, text⟩ := by
  have hunquote := style.unquote_quote text
  have hfirst : ∃ c rest, (style.quote text).toList = c :: rest ∧ c ≠ '[' := by
    cases style with
    | single => exact ⟨'\'', singleQuoteBody text.toList ++ ['\''], by
        simp [QuoteStyle.quote, singleQuote], by decide⟩
    | double => exact ⟨'"', doubleQuoteBody text.toList ++ ['"'], by
        simp [QuoteStyle.quote, doubleQuote], by decide⟩
  obtain ⟨c, rest, htext, hne⟩ := hfirst
  unfold itemOfWord
  split
  · next hbracket =>
      rw [htext] at hbracket
      exact absurd (List.cons.inj hbracket).1 hne
  · rw [hunquote]

theorem ofText_eq {α : Type} {raw word : α → String} {l : List α}
    (h : ∀ a ∈ l, IsField (raw a).toList (word a).toList) :
    ofText (literalText (l.map raw)) = ⟨l.map fun a => itemOfWord (word a)⟩ := by
  have hspace : Text.isSeparator ' ' = true := by decide
  have hfields := Lexical.fields_intercalate hspace h
  rw [ofText, toList_literalText, stripList_parentheses, enclosed?_parentheses]
  rw [Option.getD_some, String.ofList_toList]
  show (⟨(fields ((String.singleton ' ').intercalate _)).map itemOfWord⟩ : ArrayLiteral) = _
  rw [hfields, List.map_map]
  rfl

/-- **A literal of quoted values has these values as its items.** -/
theorem ofText_literalText (style : QuoteStyle) (texts : List String) :
    ofText (literalText (texts.map style.quote)) = ⟨texts.map (ArrayItem.mk none)⟩ := by
  have hfields : ∀ text ∈ texts, IsField (style.quote text).toList (style.quote text).toList :=
    fun text _ => style.isField text
  rw [ofText_eq hfields]
  simp only [itemOfWord_quote]

/-! ### Entries of arrays -/

theorem isLiteral_itemsText (quote : String → String) (entries : List (String × String)) :
    isLiteral (Builtin.itemsText quote entries) = true :=
  isLiteral_literalText _

/-- **A literal of entries has their keys, and the values as they are read back.** -/
theorem ofText_itemsText {quote read : String → String}
    (hquote : ∀ text, ReadsAs (quote text) (read text)) {entries : List (String × String)}
    (hkeys : ∀ entry ∈ entries, ReadableKey entry.1) :
    ofText (Builtin.itemsText quote entries) =
      ⟨entries.map fun entry => ⟨some entry.1, read entry.2⟩⟩ := by
  choose word hword hunquote using hquote
  have hfields : ∀ entry ∈ entries, IsField ("[" ++ entry.1 ++ "]=" ++ quote entry.2).toList
      ("[" ++ entry.1 ++ "]=" ++ word entry.2).toList := by
    intro entry hentry
    have hfield := (hkeys entry hentry).isField (hword entry.2)
    simpa using hfield
  have hitems : ∀ entry ∈ entries, itemOfWord ("[" ++ entry.1 ++ "]=" ++ word entry.2) =
      ⟨some entry.1, read entry.2⟩ := by
    intro entry hentry
    rw [(hkeys entry hentry).itemOfWord_eq, hunquote]
  show ofText (literalText (entries.map _)) = _
  rw [ofText_eq hfields, List.map_congr_left hitems]

end ShellExpansion.ArrayLiteral
