import ShellExpansion.Proofs.Lexical.Field

/-! # Splitting is stable

Splitting loses nothing of a text but the separators that are not shielded (`Unseparated`).  A word
that a separator follows is cut into its segments alike in front of every separator and at the end
of a text (`CutsBefore`), for none of its stretches is open where it ends; only the last word may
leave one open, and nothing follows that.  Words of this form (`Rejoinable`) are found again behind
each other with any separators between them, and each of them alone (`fields_stable`). -/

namespace ShellExpansion.Lexical

/-! ### What splitting keeps of a text -/

/-- The second text is the first one without the separators outside its quotes, its backslash
pairs and its expansions in braces. -/
inductive Unseparated : List Char → List Char → Prop
  | nil : Unseparated [] []
  | separator {c : Char} {text kept : List Char} (hc : Text.isSeparator c = true)
      (hrest : Unseparated text kept) : Unseparated (c :: text) kept
  | alone {c : Char} {text kept : List Char} (hc : Text.isSeparator c = false)
      (halone : StandsAlone c text) (hrest : Unseparated text kept) :
      Unseparated (c :: text) (c :: kept)
  | stretch {first text kept : List Char} (hfirst : IsStretch first)
      (hrest : Unseparated text kept) : Unseparated (first ++ text) (first ++ kept)
  /-- What is left open takes the rest of the text, its separators too. -/
  | unclosed {text : List Char} (htext : IsUnclosed text) : Unseparated text text

/-- The characters of the segments that are no separators. -/
def keptText (parts : List Segment) : List Char :=
  Segment.join (parts.filter (!·.isSeparator))

theorem keptText_shield (first : List Char) (parts : List Segment) :
    keptText (.shield first :: parts) = first ++ keptText parts := rfl

theorem keptText_separator {c : Char} (hc : Text.isSeparator c = true) (parts : List Segment) :
    keptText (.plain c :: parts) = keptText parts := by
  simp [keptText, Segment.isSeparator, hc]

theorem keptText_plain {c : Char} (hc : Text.isSeparator c = false) (parts : List Segment) :
    keptText (.plain c :: parts) = c :: keptText parts := by
  simp [keptText, Segment.isSeparator, hc, Segment.join, Segment.text]

theorem unseparated_keptText (cs : List Char) : Unseparated cs (keptText (segments cs)) := by
  fun_induction segments cs with
  | case1 cs first rest h ih =>
      rw [keptText_shield]
      rcases isStretch_or_isUnclosed h with hstretch | ⟨rfl, hunclosed⟩
      · rw [eq_append_of_shielded? h]
        exact .stretch hstretch ih
      · have hkept : first ++ keptText [] = first := List.append_nil first
        rw [segments_nil, hkept, eq_append_of_shielded? h, List.append_nil]
        exact .unclosed hunclosed
  | case2 => exact .nil
  | case3 c rest h ih =>
      cases hc : Text.isSeparator c with
      | true =>
          rw [keptText_separator hc]
          exact .separator hc ih
      | false =>
          rw [keptText_plain hc]
          exact .alone hc ((shielded?_eq_none_iff c rest).mp h) ih

theorem Unseparated.eq_keptText {text kept : List Char} (h : Unseparated text kept) :
    kept = keptText (segments text) := by
  induction h with
  | nil =>
      rw [segments_nil]
      rfl
  | separator hc _ ih => rw [segments_plain (isBare_of_isSeparator hc), keptText_separator hc, ih]
  | alone hc halone _ ih =>
      rw [segments_of_shielded?_eq_none ((shielded?_eq_none_iff _ _).mpr halone),
        keptText_plain hc, ih]
  | stretch hfirst _ ih =>
      rw [segments_of_shielded? (hfirst.shielded?_eq _), keptText_shield, ih]
  | @unclosed text htext =>
      rw [segments_of_shielded? htext.shielded?_eq, keptText_shield, segments_nil]
      exact (List.append_nil text).symm

/-- The words are the text without its separators. -/
theorem flatMap_groupFields (word rest : List Segment) :
    (groupFields word rest).flatMap Segment.join = Segment.join word.reverse ++ keptText rest := by
  fun_induction groupFields word rest with
  | case1 word hword =>
      rw [List.isEmpty_iff.mp hword]
      rfl
  | case2 word hword => simp [keptText, Segment.join]
  | case3 word part rest hpart hword ih =>
      rw [ih, List.isEmpty_iff.mp hword]
      simp [keptText, hpart]
  | case4 word part rest hpart hword ih =>
      rw [List.flatMap_cons, ih]
      simp [keptText, hpart, Segment.join]
  | case5 word part rest hpart ih =>
      rw [ih]
      simp [keptText, hpart, Segment.join]

/-! ### Words that are cut alike in front of every separator -/

/-- These segments are cut off in front of every separator, and at the end of a text. -/
def CutsBefore (parts : List Segment) : Prop :=
  ∀ rest : List Char, (∀ c ∈ rest.head?, Text.isSeparator c = true) →
    segments (Segment.join parts ++ rest) = parts ++ segments rest

theorem CutsBefore.segments_eq {parts : List Segment} (h : CutsBefore parts) :
    segments (Segment.join parts) = parts := by
  have hend := h [] fun c hc => nomatch hc
  rwa [segments_nil, List.append_nil, List.append_nil] at hend

/-- Segments that a separator stands behind are cut off in front of every separator: none of them
is open, and no separator makes a stretch of a plain one. -/
theorem cutsBefore_of_segments {cs : List Char} {parts more : List Segment} {separator : Char}
    (h : segments cs = parts ++ .plain separator :: more) : CutsBefore parts := by
  intro rest hrest
  refine segments_join_append h (List.cons_ne_nil _ more) fun hbrace => ?_
  have hseparator := hrest '\x7b' hbrace
  exact absurd hseparator (by decide)

/-! ### Words that are found again -/

/-- Words whose segments are no separators; each but the last is cut off in front of separators. -/
inductive Rejoinable : List (List Segment) → Prop
  | nil : Rejoinable []
  | last {word : List Segment} (hne : word ≠ [])
      (hparts : ∀ part ∈ word, part.isSeparator = false)
      (hword : segments (Segment.join word) = word) : Rejoinable [word]
  | cons {word : List Segment} {words : List (List Segment)} (hne : word ≠ [])
      (hparts : ∀ part ∈ word, part.isSeparator = false) (hword : CutsBefore word)
      (hwords : Rejoinable words) : Rejoinable (word :: words)

/-- The words of the segments of a text are rejoinable, the segments `word` of the first one being
taken already. -/
theorem rejoinable_groupFields {word rest : List Segment}
    (htext : ∃ cs, segments cs = word.reverse ++ rest)
    (hparts : ∀ part ∈ word, part.isSeparator = false) : Rejoinable (groupFields word rest) := by
  fun_induction groupFields word rest with
  | case1 => exact .nil
  | case2 word hword =>
      obtain ⟨cs, hcs⟩ := htext
      rw [List.append_nil] at hcs
      refine .last ?_ (fun part hpart => hparts part (List.mem_reverse.mp hpart)) ?_
      · exact fun hnil => hword (List.isEmpty_iff.mpr (List.reverse_eq_nil_iff.mp hnil))
      · rw [← hcs, flatten_segments]
  | case3 word part rest hpart hword ih =>
      obtain ⟨cs, hcs⟩ := htext
      rw [List.isEmpty_iff.mp hword] at hcs
      obtain ⟨behind, hbehind, -⟩ := segments_eq_cons hcs
      exact ih ⟨behind, hbehind⟩ fun _ hmem => absurd hmem List.not_mem_nil
  | case4 word part rest hpart hword ih =>
      obtain ⟨cs, hcs⟩ := htext
      obtain ⟨behind, hbehind⟩ := exists_segments_of_append hcs
      obtain ⟨after, hafter, -⟩ := segments_eq_cons hbehind
      cases part with
      | shield first => cases hpart
      | plain separator =>
          refine .cons ?_ (fun part hpart => hparts part (List.mem_reverse.mp hpart))
            (cutsBefore_of_segments hcs)
            (ih ⟨after, hafter⟩ fun _ hmem => absurd hmem List.not_mem_nil)
          exact fun hnil => hword (List.isEmpty_iff.mpr (List.reverse_eq_nil_iff.mp hnil))
  | case5 word part rest hpart ih =>
      obtain ⟨cs, hcs⟩ := htext
      refine ih ⟨cs, ?_⟩ ?_
      · rw [hcs, List.reverse_cons, List.append_assoc, List.singleton_append]
      · exact List.forall_mem_cons.mpr ⟨Bool.eq_false_iff.mpr hpart, hparts⟩

theorem groupFields_lone {word : List Segment} (hne : word ≠ [])
    (hparts : ∀ part ∈ word, part.isSeparator = false) : groupFields [] word = [word] := by
  have hrest : ∀ part ∈ ([] : List Segment).head?, part.isSeparator = true := nofun
  have hend := groupFields_word hparts hne hrest
  rwa [List.append_nil] at hend

/-- Each of the words is split to itself. -/
theorem Rejoinable.groupFields_each {words : List (List Segment)} (h : Rejoinable words) :
    ∀ word ∈ words, groupFields [] (segments (Segment.join word)) = [word] := by
  induction h with
  | nil => exact fun _ hmem => absurd hmem List.not_mem_nil
  | last hne hparts hword =>
      intro word hmem
      obtain rfl := List.mem_singleton.mp hmem
      rw [hword, groupFields_lone hne hparts]
  | cons hne hparts hword _ ih =>
      refine List.forall_mem_cons.mpr ⟨?_, ih⟩
      rw [hword.segments_eq, groupFields_lone hne hparts]

/-- The text is the words with separators, one at least, between each two of them. -/
inductive Joined : List (List Char) → List Char → Prop
  | nil : Joined [] []
  | last (word : List Char) : Joined [word] word
  | cons {word next gap text : List Char} {words : List (List Char)} (hne : gap ≠ [])
      (hgap : ∀ c ∈ gap, Text.isSeparator c = true) (hrest : Joined (next :: words) text) :
      Joined (word :: next :: words) (word ++ gap ++ text)

theorem segments_separators {gap : List Char} (hgap : ∀ c ∈ gap, Text.isSeparator c = true)
    (text : List Char) : segments (gap ++ text) = gap.map .plain ++ segments text :=
  CutInto.of_forall (fun c hc => isBare_of_isSeparator (hgap c hc)) text

/-- Rejoinable words with separators between them are found again. -/
theorem Rejoinable.groupFields_joined {words : List (List Segment)} (h : Rejoinable words)
    {text : List Char} (hjoined : Joined (words.map Segment.join) text) :
    groupFields [] (segments text) = words := by
  induction h generalizing text with
  | nil =>
      cases hjoined
      rw [segments_nil]
      rfl
  | last hne hparts hword =>
      cases hjoined
      rw [hword, groupFields_lone hne hparts]
  | @cons word words hne hparts hword _ ih =>
      cases words with
      | nil =>
          cases hjoined
          rw [hword.segments_eq, groupFields_lone hne hparts]
      | cons next words =>
          cases hjoined with
          | @cons _ _ gap text _ hgapne hgap hrest =>
              obtain ⟨c, gap, rfl⟩ := List.exists_cons_of_ne_nil hgapne
              have hcut : segments (Segment.join word ++ (c :: gap) ++ text) =
                  word ++ ((c :: gap).map .plain ++ segments text) := by
                rw [List.append_assoc, hword, segments_separators hgap]
                intro d hd
                obtain rfl := Option.some.inj hd
                exact hgap _ List.mem_cons_self
              have hseparators : ∀ part ∈ (c :: gap).map Segment.plain,
                  part.isSeparator = true := by
                intro part hpart
                obtain ⟨d, hd, rfl⟩ := List.mem_map.mp hpart
                exact hgap d hd
              rw [hcut, groupFields_word hparts hne,
                groupFields_separators hseparators, ih hrest]
              intro part hpart
              obtain rfl := Option.some.inj hpart
              exact hgap c List.mem_cons_self

/-- **Splitting loses only separators and is stable.**  The words of a text are not empty, and put
together they are the text without the separators that are not shielded.  Each word is split to
itself, and the words with any separators between them are found again. -/
theorem fields_stable (text : String) :
    (∀ word ∈ fields text, word ≠ "") ∧
    (∀ kept : String, Unseparated text.toList kept.toList ↔ kept = String.join (fields text)) ∧
    (∀ word ∈ fields text, fields word = [word]) ∧
    ∀ joined : String, Joined ((fields text).map String.toList) joined.toList →
      fields joined = fields text := by
  have hwords : Rejoinable (groupFields [] (segments text.toList)) :=
    rejoinable_groupFields ⟨text.toList, rfl⟩ fun _ hmem => absurd hmem List.not_mem_nil
  have halone : ∀ word ∈ fields text, fields word = [word] := by
    intro word hword
    obtain ⟨parts, hparts, rfl⟩ := List.mem_map.mp hword
    rw [fields_eq, fieldsList, String.toList_ofList, hwords.groupFields_each parts hparts]
    rfl
  refine ⟨?_, fun kept => ?_, halone, fun joined hjoined => ?_⟩
  · rintro word hword rfl
    exact absurd (halone "" hword) (by simp [fields_eq, fieldsList_nil])
  · have hjoin : (String.join (fields text)).toList = keptText (segments text.toList) := by
      rw [String.toList_join, fields, List.flatMap_map]
      simp only [String.toList_ofList]
      exact flatMap_groupFields [] (segments text.toList)
    constructor
    · intro h
      exact String.toList_inj.mp (h.eq_keptText.trans hjoin.symm)
    · rintro rfl
      rw [hjoin]
      exact unseparated_keptText text.toList
  · have htexts : (fields text).map String.toList =
        (groupFields [] (segments text.toList)).map Segment.join := by
      simp [fields]
    rw [htexts] at hjoined
    rw [fields, hwords.groupFields_joined hjoined, fields]

end ShellExpansion.Lexical
