import Mathlib.Data.List.Basic
import ShellExpansion.Lexical.Field
import ShellExpansion.Proofs.Lexical.Segment

/-! # Words between separators

Some texts are cut into the same segments whatever follows them (`CutInto`).  Such a text is a word
(`IsField`) if its segments are no separators, those at its end aside: these do not belong to the
word.  A character that is cut off in front of a word belongs to it (`IsField.of_cutInto`).  Words
with separators between them are found again (`fields_intercalate`). -/

namespace ShellExpansion.Lexical

/-! ### Texts that are cut apart by themselves -/

/-- Whatever follows the text, these are its segments. -/
def CutInto (text : List Char) (parts : List Segment) : Prop :=
  ∀ rest, segments (text ++ rest) = parts ++ segments rest

theorem CutInto.nil : CutInto [] [] := fun _ => rfl

theorem CutInto.plain {c : Char} (hc : IsBare c) : CutInto [c] [.plain c] := segments_plain hc

theorem CutInto.append {text text' : List Char} {parts parts' : List Segment}
    (h : CutInto text parts) (h' : CutInto text' parts') :
    CutInto (text ++ text') (parts ++ parts') := by
  intro rest
  rw [List.append_assoc, h, h', List.append_assoc]

theorem CutInto.join_eq {text : List Char} {parts : List Segment} (h : CutInto text parts) :
    Segment.join parts = text := by
  have hend := h []
  rw [segments_nil, List.append_nil, List.append_nil] at hend
  rw [← hend, flatten_segments]

theorem CutInto.of_forall {text : List Char} (h : ∀ c ∈ text, IsBare c) :
    CutInto text (text.map .plain) := by
  induction text with
  | nil => exact .nil
  | cons c text ih =>
      have hrest := ih fun d hd => h d (List.mem_cons_of_mem c hd)
      exact (CutInto.plain (h c List.mem_cons_self)).append hrest

/-- A text that ends with a character of its own is cut apart by itself: no stretch is open where
it ends. -/
theorem cutInto_segments {cs : List Char} {c : Char} (hc : IsBare c)
    (hlast : (segments cs).getLast? = some (.plain c)) : CutInto cs (segments cs) := by
  obtain ⟨parts, hparts⟩ := List.getLast?_eq_some_iff.mp hlast
  have hjoin := flatten_segments cs
  rw [hparts, Segment.join_append] at hjoin
  intro rest
  have hcut : segments (Segment.join parts ++ c :: rest) = parts ++ segments (c :: rest) :=
    segments_join_append hparts (List.cons_ne_nil _ _) fun hhead => hhead
  rw [segments_plain hc] at hcut
  rw [hparts, ← hjoin, List.append_assoc, List.append_assoc]
  exact hcut

/-! ### Words -/

/-- The words of the characters of a raw text. -/
def fieldsList (cs : List Char) : List (List Char) :=
  (groupFields [] (segments cs)).map Segment.join

theorem fields_eq (text : String) : fields text = (fieldsList text.toList).map String.ofList := by
  rw [fields, fieldsList, List.map_map]
  rfl

theorem fieldsList_nil : fieldsList [] = [] := by
  rw [fieldsList, segments_nil]
  rfl

theorem isBare_of_isSeparator {c : Char} (h : Text.isSeparator c = true) : IsBare c := by
  simp only [Text.isSeparator, Bool.or_eq_true, beq_iff_eq] at h
  rcases h with (rfl | rfl) | rfl <;> decide

theorem groupFields_parts {parts : List Segment} (h : ∀ part ∈ parts, part.isSeparator = false)
    (word rest : List Segment) :
    groupFields word (parts ++ rest) = groupFields (parts.reverse ++ word) rest := by
  induction parts generalizing word with
  | nil => rfl
  | cons part parts ih =>
      have hpart := h part List.mem_cons_self
      rw [List.cons_append, groupFields, if_neg (Bool.eq_false_iff.mp hpart),
        ih fun other hother => h other (List.mem_cons_of_mem part hother), List.reverse_cons,
        List.append_assoc]
      rfl

theorem groupFields_separators {separators : List Segment}
    (h : ∀ part ∈ separators, part.isSeparator = true) (rest : List Segment) :
    groupFields [] (separators ++ rest) = groupFields [] rest := by
  induction separators with
  | nil => rfl
  | cons separator separators ih =>
      rw [List.cons_append, groupFields, if_pos (h separator List.mem_cons_self)]
      exact ih fun other hother => h other (List.mem_cons_of_mem separator hother)

/-- A word ends where a separator or nothing stands. -/
theorem groupFields_word {parts rest : List Segment}
    (h : ∀ part ∈ parts, part.isSeparator = false) (hne : parts ≠ [])
    (hrest : ∀ part ∈ rest.head?, part.isSeparator = true) :
    groupFields [] (parts ++ rest) = parts :: groupFields [] rest := by
  have hword : (parts.reverse ++ []).isEmpty = false := by
    rw [List.append_nil]
    exact List.isEmpty_eq_false_iff.mpr fun hnil => hne (List.reverse_eq_nil_iff.mp hnil)
  rw [groupFields_parts h]
  cases rest with
  | nil =>
      rw [groupFields, hword]
      simp [groupFields]
  | cons separator rest =>
      have hseparator := hrest separator rfl
      rw [groupFields, if_pos hseparator, hword, groupFields, if_pos hseparator]
      simp

/-- Whatever follows the raw text, it is read as the word, perhaps with separators behind it; what
follows goes on the word only if there are none. -/
def IsField (raw word : List Char) : Prop :=
  ∃ parts separators : List Segment, CutInto raw (parts ++ separators) ∧
    Segment.join parts = word ∧ parts ≠ [] ∧ (∀ part ∈ parts, part.isSeparator = false) ∧
    ∀ part ∈ separators, part.isSeparator = true

theorem IsField.of_parts {raw : List Char} {parts : List Segment} (h : CutInto raw parts)
    (hne : parts ≠ []) (hparts : ∀ part ∈ parts, part.isSeparator = false) : IsField raw raw := by
  refine ⟨parts, [], ?_, h.join_eq, hne, hparts, fun part hpart => ?_⟩
  · rwa [List.append_nil]
  · exact absurd hpart List.not_mem_nil

/-- Characters without a meaning of their own are a word. -/
theorem IsField.of_forall {raw : List Char} (hne : raw ≠ [])
    (h : ∀ c ∈ raw, IsBare c ∧ Text.isSeparator c = false) : IsField raw raw := by
  have hparts := CutInto.of_forall fun c hc => (h c hc).1
  refine .of_parts hparts (fun hnil => hne (List.map_eq_nil_iff.mp hnil)) fun part hpart => ?_
  obtain ⟨c, hc, rfl⟩ := List.mem_map.mp hpart
  exact (h c hc).2

/-- What is cut off in front of a word belongs to it. -/
theorem IsField.of_cutInto {front raw word : List Char} {parts : List Segment}
    (hfront : CutInto front parts) (hparts : ∀ part ∈ parts, part.isSeparator = false)
    (h : IsField raw word) : IsField (front ++ raw) (front ++ word) := by
  obtain ⟨parts', separators, hcut, rfl, hne, hparts', hseparators⟩ := h
  refine ⟨parts ++ parts', separators, ?_, ?_, ?_, ?_, hseparators⟩
  · rw [List.append_assoc]
    exact hfront.append hcut
  · rw [Segment.join, List.flatMap_append]
    exact congrArg (· ++ _) hfront.join_eq
  · exact fun hnil => hne (List.append_eq_nil_iff.mp hnil).2
  · exact List.forall_mem_append.mpr ⟨hparts, hparts'⟩

/-- A separator behind a word does not belong to it. -/
theorem IsField.append_separator {raw word : List Char} (h : IsField raw word) {separator : Char}
    (hseparator : Text.isSeparator separator = true) : IsField (raw ++ [separator]) word := by
  obtain ⟨parts, separators, hcut, hjoin, hne, hparts, hseparators⟩ := h
  refine ⟨parts, separators ++ [.plain separator], ?_, hjoin, hne, hparts, ?_⟩
  · rw [← List.append_assoc]
    exact hcut.append (.plain (isBare_of_isSeparator hseparator))
  · refine List.forall_mem_append.mpr ⟨hseparators, fun part hpart => ?_⟩
    rw [List.mem_singleton.mp hpart]
    exact hseparator

/-- A word is the first one of a text that goes on with separators or not at all. -/
theorem IsField.fieldsList_eq_cons {raw word : List Char} (h : IsField raw word) {rest : List Char}
    (hrest : ∀ part ∈ (segments rest).head?, part.isSeparator = true) :
    fieldsList (raw ++ rest) = word :: fieldsList rest := by
  obtain ⟨parts, separators, hcut, rfl, hne, hparts, hseparators⟩ := h
  have hend : ∀ part ∈ (separators ++ segments rest).head?, part.isSeparator = true := by
    cases separators with
    | nil => exact hrest
    | cons separator separators =>
        intro part hpart
        obtain rfl := Option.some.inj hpart
        exact hseparators separator List.mem_cons_self
  rw [fieldsList, hcut, List.append_assoc, groupFields_word hparts hne hend,
    groupFields_separators hseparators, fieldsList]
  rfl

theorem IsField.fieldsList_eq {raw word : List Char} (h : IsField raw word) :
    fieldsList raw = [word] := by
  have hend : ∀ part ∈ (segments []).head?, part.isSeparator = true := by simp [segments_nil]
  have hfields := h.fieldsList_eq_cons hend
  rwa [List.append_nil, fieldsList_nil] at hfields

theorem IsField.fieldsList_append {raw word : List Char} (h : IsField raw word) {separator : Char}
    (hseparator : Text.isSeparator separator = true) (rest : List Char) :
    fieldsList (raw ++ separator :: rest) = word :: fieldsList rest := by
  have hcut := segments_plain (isBare_of_isSeparator hseparator) rest
  have hplain : (Segment.plain separator).isSeparator = true := hseparator
  rw [h.fieldsList_eq_cons (by simp [hcut, hplain])]
  rw [fieldsList, hcut, groupFields, if_pos hplain]
  rfl

variable {α : Type} {l : List α} {separator : Char} (hseparator : Text.isSeparator separator = true)

include hseparator

theorem fieldsList_intercalate {raw word : α → List Char} (h : ∀ a ∈ l, IsField (raw a) (word a)) :
    fieldsList ([separator].intercalate (l.map raw)) = l.map word := by
  induction l with
  | nil => exact fieldsList_nil
  | cons a l ih =>
      have hfirst := h a List.mem_cons_self
      have hrest := ih fun other hother => h other (List.mem_cons_of_mem a hother)
      cases l with
      | nil => simpa using hfirst.fieldsList_eq
      | cons other l =>
          have hfields := hfirst.fieldsList_append hseparator
            ([separator].intercalate ((other :: l).map raw))
          rw [hrest] at hfields
          simpa [List.intercalate_cons_cons] using hfields

/-- **Words with separators between them are found again.** -/
theorem fields_intercalate {raw word : α → String}
    (h : ∀ a ∈ l, IsField (raw a).toList (word a).toList) :
    fields ((String.singleton separator).intercalate (l.map raw)) = l.map word := by
  have hlist := fieldsList_intercalate hseparator h
  rw [fields_eq, String.toList_intercalate, List.map_map, String.toList_singleton]
  simp only [Function.comp_def]
  rw [hlist, List.map_map]
  simp

end ShellExpansion.Lexical
