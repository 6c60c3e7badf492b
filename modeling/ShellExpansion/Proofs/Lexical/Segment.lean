import ShellExpansion.Lexical.Segment
import ShellExpansion.Proofs.Lexical.Closing

/-! # Shielded stretches of a raw word

A stretch of a raw word that is closed within itself (`IsStretch`) is one segment, whatever follows
it: a backslash pair, a quoted section (`segments_singleQuoted`, `segments_doubleQuoted`), a
parameter expansion in braces (`segments_expansion`).  One that is not closed (`IsUnclosed`) takes
the rest of the text.  A character that opens no stretch with what follows it (`StandsAlone`) is a
segment of its own (`segments_plain`).  So the segments in front of others do not depend on what
these are, but for a brace at the beginning (`segments_join_append`). -/

namespace ShellExpansion.Lexical

/-- The character opens no shielded stretch. -/
def IsBare (c : Char) : Prop := c ≠ '\\' ∧ c ≠ '\'' ∧ c ≠ '"' ∧ c ≠ '$'

instance (c : Char) : Decidable (IsBare c) :=
  inferInstanceAs (Decidable (c ≠ '\\' ∧ c ≠ '\'' ∧ c ≠ '"' ∧ c ≠ '$'))

/-- What stands inside a double-quoted section: backslash pairs, and characters other than the
backslash and the quote. -/
inductive DoubleQuoted : List Char → Prop
  | nil : DoubleQuoted []
  | char {c : Char} {text : List Char} :
      c ≠ '"' → c ≠ '\\' → DoubleQuoted text → DoubleQuoted (c :: text)
  | pair (c : Char) {text : List Char} : DoubleQuoted text → DoubleQuoted ('\\' :: c :: text)

theorem DoubleQuoted.of_forall {text : List Char} (h : ∀ c ∈ text, c ≠ '"' ∧ c ≠ '\\') :
    DoubleQuoted text := by
  induction text with
  | nil => exact .nil
  | cons c text ih =>
      obtain ⟨hquote, hslash⟩ := h c List.mem_cons_self
      exact .char hquote hslash (ih fun d hd => h d (List.mem_cons_of_mem c hd))

/-- Characters other than the quote are passed over. -/
theorem pastSingleQuote_behind {text : List Char} (h : '\'' ∉ text) (rest : List Char) :
    pastSingleQuote (text ++ rest) =
      (text ++ (pastSingleQuote rest).1, (pastSingleQuote rest).2) := by
  induction text with
  | nil => rfl
  | cons c text ih =>
      have hc : c ≠ '\'' := (List.ne_of_not_mem_cons h).symm
      rw [List.cons_append, pastSingleQuote, if_neg hc, ih (List.not_mem_of_not_mem_cons h)]
      rfl

theorem pastSingleQuote_closed {text : List Char} (h : '\'' ∉ text) (rest : List Char) :
    pastSingleQuote (text ++ '\'' :: rest) = (text ++ ['\''], rest) :=
  pastSingleQuote_behind h ('\'' :: rest)

theorem pastSingleQuote_unclosed {text : List Char} (h : '\'' ∉ text) :
    pastSingleQuote text = (text, []) := by
  have hpast := pastSingleQuote_behind h []
  rwa [pastSingleQuote, List.append_nil] at hpast

theorem DoubleQuoted.pastDoubleQuote_behind {text : List Char} (h : DoubleQuoted text)
    (rest : List Char) :
    pastDoubleQuote (text ++ rest) =
      (text ++ (pastDoubleQuote rest).1, (pastDoubleQuote rest).2) := by
  induction h with
  | nil => rfl
  | char hquote hslash _ ih =>
      rw [List.cons_append, pastDoubleQuote, if_neg hquote, ih]
      · rfl
      · exact fun _ _ h => absurd h hslash
  | pair c _ ih =>
      rw [List.cons_append, List.cons_append, pastDoubleQuote, ih]
      rfl

theorem DoubleQuoted.pastDoubleQuote_eq {text : List Char} (h : DoubleQuoted text)
    (rest : List Char) : pastDoubleQuote (text ++ '"' :: rest) = (text ++ ['"'], rest) :=
  h.pastDoubleQuote_behind ('"' :: rest)

theorem pastClosing_closed {opener closer : Char} (hcloser : closer ≠ '\\') {text : List Char}
    (h : splitClosing? opener closer (text ++ [closer]) = some (text, [])) (rest : List Char) :
    pastClosing opener closer (text ++ closer :: rest) = (text ++ [closer], rest) := by
  have h' := splitClosing?_append hcloser rest h
  rw [List.append_assoc, List.singleton_append, List.nil_append] at h'
  rw [pastClosing, h']

/-! ### Closed stretches -/

/-- The text is a shielded stretch that is closed at its end. -/
inductive IsStretch : List Char → Prop
  | escaped (c : Char) : IsStretch ['\\', c]
  | single {inside : List Char} (hinside : '\'' ∉ inside) :
      IsStretch ('\'' :: (inside ++ ['\'']))
  | double {inside : List Char} (hinside : DoubleQuoted inside) :
      IsStretch ('"' :: (inside ++ ['"']))
  | braced {inside : List Char} (hcloses : Closes '\x7b' '\x7d' inside) :
      IsStretch ('$' :: '\x7b' :: (inside ++ ['\x7d']))

/-- A closed stretch is read as one, whatever follows it. -/
theorem IsStretch.shielded?_eq {first : List Char} (h : IsStretch first) (rest : List Char) :
    shielded? (first ++ rest) = some (first, rest) := by
  cases h with
  | escaped c => rfl
  | single hinside =>
      rw [List.cons_append, List.append_assoc, List.singleton_append, shielded?,
        pastSingleQuote_closed hinside]
      rfl
  | double hinside =>
      rw [List.cons_append, List.append_assoc, List.singleton_append, shielded?,
        hinside.pastDoubleQuote_eq]
      rfl
  | braced hcloses =>
      rw [List.cons_append, List.cons_append, List.append_assoc, List.singleton_append, shielded?,
        pastClosing_closed (by decide) hcloses]
      rfl

/-- The text begins a shielded stretch that is not closed.  A backslash at the end of a text shields
nothing. -/
inductive IsUnclosed : List Char → Prop
  | single {inside : List Char} (hinside : '\'' ∉ inside) : IsUnclosed ('\'' :: inside)
  | double {inside : List Char} (hinside : DoubleQuoted inside) : IsUnclosed ('"' :: inside)
  | doubleBackslash {inside : List Char} (hinside : DoubleQuoted inside) :
      IsUnclosed ('"' :: (inside ++ ['\\']))
  | braced {inside : List Char} (hinside : splitClosing? '\x7b' '\x7d' inside = none) :
      IsUnclosed ('$' :: '\x7b' :: inside)

/-- A stretch that is not closed takes the whole text. -/
theorem IsUnclosed.shielded?_eq {text : List Char} (h : IsUnclosed text) :
    shielded? text = some (text, []) := by
  cases h with
  | single hinside =>
      rw [shielded?, pastSingleQuote_unclosed hinside]
      rfl
  | @double inside hinside =>
      have hpast := hinside.pastDoubleQuote_behind []
      rw [List.append_nil] at hpast
      rw [shielded?, hpast]
      simp [pastDoubleQuote, consFirst]
  | doubleBackslash hinside =>
      rw [shielded?, hinside.pastDoubleQuote_behind ['\\']]
      rfl
  | braced hinside =>
      rw [shielded?, pastClosing, hinside]
      rfl

theorem pastSingleQuote_cases (cs : List Char) :
    (∃ inside, '\'' ∉ inside ∧ (pastSingleQuote cs).1 = inside ++ ['\'']) ∨
      '\'' ∉ cs ∧ pastSingleQuote cs = (cs, []) := by
  fun_induction pastSingleQuote cs with
  | case1 => exact .inr ⟨List.not_mem_nil, rfl⟩
  | case2 cs => exact .inl ⟨[], List.not_mem_nil, rfl⟩
  | case3 c cs hc ih =>
      rcases ih with ⟨inside, hinside, hfirst⟩ | ⟨hnone, hpast⟩
      · exact .inl ⟨c :: inside, List.not_mem_cons_of_ne_of_not_mem (Ne.symm hc) hinside,
          congrArg (List.cons c) hfirst⟩
      · exact .inr ⟨List.not_mem_cons_of_ne_of_not_mem (Ne.symm hc) hnone,
          congrArg (consFirst c) hpast⟩

theorem pastDoubleQuote_cases (cs : List Char) :
    (∃ inside, DoubleQuoted inside ∧ (pastDoubleQuote cs).1 = inside ++ ['"']) ∨
      (DoubleQuoted cs ∨ ∃ inside, DoubleQuoted inside ∧ cs = inside ++ ['\\']) ∧
        pastDoubleQuote cs = (cs, []) := by
  fun_induction pastDoubleQuote cs with
  | case1 => exact .inr ⟨.inl .nil, rfl⟩
  | case2 c cs ih =>
      rcases ih with ⟨inside, hinside, hfirst⟩ | ⟨hopen, hpast⟩
      · exact .inl ⟨'\\' :: c :: inside, .pair c hinside,
          congrArg (List.cons '\\' ∘ List.cons c) hfirst⟩
      · refine .inr ⟨?_, congrArg (consFirst '\\' ∘ consFirst c) hpast⟩
        rcases hopen with hopen | ⟨inside, hinside, rfl⟩
        · exact .inl (.pair c hopen)
        · exact .inr ⟨'\\' :: c :: inside, .pair c hinside, rfl⟩
  | case3 cs => exact .inl ⟨[], .nil, rfl⟩
  | case4 c cs hslash hc ih =>
      by_cases hpair : c = '\\'
      · -- A backslash is in no pair only at the end of the text.
        subst hpair
        cases cs with
        | nil => exact .inr ⟨.inr ⟨[], .nil, rfl⟩, rfl⟩
        | cons d cs => exact (hslash d cs rfl rfl).elim
      · rcases ih with ⟨inside, hinside, hfirst⟩ | ⟨hopen, hpast⟩
        · exact .inl ⟨c :: inside, .char hc hpair hinside, congrArg (List.cons c) hfirst⟩
        · refine .inr ⟨?_, congrArg (consFirst c) hpast⟩
          rcases hopen with hopen | ⟨inside, hinside, rfl⟩
          · exact .inl (.char hc hpair hopen)
          · exact .inr ⟨c :: inside, .char hc hpair hinside, rfl⟩

theorem pastClosing_cases {opener closer : Char} (hcloser : closer ≠ '\\') (cs : List Char) :
    (∃ inside, Closes opener closer inside ∧
      (pastClosing opener closer cs).1 = inside ++ [closer]) ∨
      splitClosing? opener closer cs = none ∧ pastClosing opener closer cs = (cs, []) := by
  unfold pastClosing
  cases hclosing : splitClosing? opener closer cs with
  | none => exact .inr ⟨rfl, rfl⟩
  | some parts => exact .inl ⟨parts.1, closes_of_splitClosing? hcloser hclosing, rfl⟩

/-- A stretch is closed, or nothing is left over behind it. -/
theorem isStretch_or_isUnclosed {cs first rest : List Char}
    (h : shielded? cs = some (first, rest)) : IsStretch first ∨ rest = [] ∧ IsUnclosed first := by
  unfold shielded? at h
  split at h
  · obtain ⟨rfl, -⟩ := Prod.mk.inj (Option.some.inj h)
    exact .inl (.escaped _)
  · next cs =>
      obtain ⟨rfl, rfl⟩ := Prod.mk.inj (Option.some.inj h)
      rcases pastSingleQuote_cases cs with ⟨inside, hinside, hfirst⟩ | ⟨hnone, hpast⟩
      · rw [hfirst]
        exact .inl (.single hinside)
      · rw [hpast]
        exact .inr ⟨rfl, .single hnone⟩
  · next cs =>
      obtain ⟨rfl, rfl⟩ := Prod.mk.inj (Option.some.inj h)
      rcases pastDoubleQuote_cases cs with ⟨inside, hinside, hfirst⟩ | ⟨hopen, hpast⟩
      · rw [hfirst]
        exact .inl (.double hinside)
      · rw [hpast]
        rcases hopen with hopen | ⟨inside, hinside, rfl⟩
        · exact .inr ⟨rfl, .double hopen⟩
        · exact .inr ⟨rfl, .doubleBackslash hinside⟩
  · next cs =>
      obtain ⟨rfl, rfl⟩ := Prod.mk.inj (Option.some.inj h)
      have hbrace : '\x7d' ≠ '\\' := by decide
      rcases pastClosing_cases hbrace cs with ⟨inside, hcloses, hfirst⟩ | ⟨hnone, hpast⟩
      · rw [consFirst, hfirst]
        exact .inl (.braced hcloses)
      · rw [hpast]
        exact .inr ⟨rfl, .braced hnone⟩
  · cases h

/-- A stretch that something is left over behind is closed. -/
theorem isStretch_of_shielded? {cs first rest : List Char}
    (h : shielded? cs = some (first, rest)) (hrest : rest ≠ []) : IsStretch first :=
  (isStretch_or_isUnclosed h).resolve_right fun hunclosed => hrest hunclosed.1

/-! ### Characters of their own -/

/-- No shielded stretch begins with the character when the text follows it. -/
def StandsAlone (c : Char) (following : List Char) : Prop :=
  c ≠ '\'' ∧ c ≠ '"' ∧ (c = '\\' → following = []) ∧ (c = '$' → following.head? ≠ some '\x7b')

theorem shielded?_eq_none_iff (c : Char) (rest : List Char) :
    shielded? (c :: rest) = none ↔ StandsAlone c rest := by
  unfold shielded?
  split
  · simp_all [StandsAlone]
  · simp_all [StandsAlone]
  · simp_all [StandsAlone]
  · simp_all [StandsAlone]
  · next hslash hsingle hdouble hdollar =>
      refine iff_of_true rfl ⟨?_, ?_, ?_, ?_⟩
      · rintro rfl
        exact hsingle rest rfl
      · rintro rfl
        exact hdouble rest rfl
      · rintro rfl
        cases rest with
        | nil => rfl
        | cons d rest => exact (hslash d rest rfl).elim
      · rintro rfl hhead
        obtain ⟨rest', rfl⟩ := List.head?_eq_some_iff.mp hhead
        exact hdollar rest' rfl

/-- What follows a character matters only by its first character. -/
theorem StandsAlone.of_head {c : Char} {rest other : List Char} (h : StandsAlone c rest)
    (hrest : rest ≠ []) (hhead : other.head? = some '\x7b' → rest.head? = some '\x7b') :
    StandsAlone c other := by
  obtain ⟨hsingle, hdouble, hslash, hdollar⟩ := h
  exact ⟨hsingle, hdouble, fun hc => (hrest (hslash hc)).elim,
    fun hc hother => hdollar hc (hhead hother)⟩

theorem shielded?_bare {c : Char} (hc : IsBare c) (rest : List Char) :
    shielded? (c :: rest) = none := by
  obtain ⟨hslash, hsingle, hdouble, hdollar⟩ := hc
  exact (shielded?_eq_none_iff c rest).mpr
    ⟨hsingle, hdouble, fun hc => absurd hc hslash, fun hc => absurd hc hdollar⟩

/-! ### Segments -/

theorem segments_of_shielded? {cs first rest : List Char} (h : shielded? cs = some (first, rest)) :
    segments cs = .shield first :: segments rest := by
  rw [segments]
  split
  · next h' =>
      obtain ⟨rfl, rfl⟩ := Prod.mk.inj (Option.some.inj (h.symm.trans h'))
      rfl
  · next h' => rw [h] at h'; cases h'

theorem segments_nil : segments [] = [] := by
  rw [segments]
  rfl

theorem segments_of_shielded?_eq_none {c : Char} {rest : List Char}
    (h : shielded? (c :: rest) = none) : segments (c :: rest) = .plain c :: segments rest := by
  rw [segments]
  split
  · next h' => rw [h] at h'; cases h'
  · rfl

theorem segments_plain {c : Char} (hc : IsBare c) (rest : List Char) :
    segments (c :: rest) = .plain c :: segments rest :=
  segments_of_shielded?_eq_none (shielded?_bare hc rest)

theorem segments_escaped (c : Char) (rest : List Char) :
    segments ('\\' :: c :: rest) = .shield ['\\', c] :: segments rest :=
  segments_of_shielded? rfl

theorem segments_singleQuoted {text : List Char} (h : '\'' ∉ text) (rest : List Char) :
    segments ('\'' :: (text ++ '\'' :: rest)) =
      .shield ('\'' :: (text ++ ['\''])) :: segments rest := by
  have hstretch := (IsStretch.single h).shielded?_eq rest
  rw [List.cons_append, List.append_assoc, List.singleton_append] at hstretch
  exact segments_of_shielded? hstretch

theorem segments_doubleQuoted {text : List Char} (h : DoubleQuoted text) (rest : List Char) :
    segments ('"' :: (text ++ '"' :: rest)) =
      .shield ('"' :: (text ++ ['"'])) :: segments rest := by
  have hstretch := (IsStretch.double h).shielded?_eq rest
  rw [List.cons_append, List.append_assoc, List.singleton_append] at hstretch
  exact segments_of_shielded? hstretch

theorem segments_expansion {text : List Char}
    (h : splitClosing? '\x7b' '\x7d' (text ++ ['\x7d']) = some (text, [])) (rest : List Char) :
    segments ('$' :: '\x7b' :: (text ++ '\x7d' :: rest)) =
      .shield ('$' :: '\x7b' :: (text ++ ['\x7d'])) :: segments rest := by
  have hstretch := (IsStretch.braced h).shielded?_eq rest
  rw [List.cons_append, List.cons_append, List.append_assoc, List.singleton_append] at hstretch
  exact segments_of_shielded? hstretch

/-! ### Segments in front of others -/

/-- What the first segment of a text is, and where the others come from. -/
theorem segments_eq_cons {cs : List Char} {part : Segment} {parts : List Segment}
    (h : segments cs = part :: parts) :
    ∃ rest, segments rest = parts ∧
      ((∃ first, part = .shield first ∧ shielded? cs = some (first, rest)) ∨
        ∃ c, part = .plain c ∧ cs = c :: rest ∧ shielded? cs = none) := by
  rw [segments.eq_def] at h
  split at h
  · next first rest hshielded =>
      obtain ⟨rfl, rfl⟩ := List.cons.inj h
      exact ⟨rest, rfl, .inl ⟨first, rfl, hshielded⟩⟩
  · next hshielded =>
      cases cs with
      | nil => cases h
      | cons c rest =>
          obtain ⟨rfl, rfl⟩ := List.cons.inj h
          exact ⟨rest, rfl, .inr ⟨c, rfl, rfl, hshielded⟩⟩

theorem exists_segments_of_append {cs : List Char} {parts more : List Segment}
    (h : segments cs = parts ++ more) : ∃ rest, segments rest = more := by
  induction parts generalizing cs with
  | nil => exact ⟨cs, h⟩
  | cons part parts ih =>
      obtain ⟨rest, hrest, -⟩ := segments_eq_cons h
      exact ih hrest

theorem Segment.join_append (parts more : List Segment) :
    Segment.join (parts ++ more) = Segment.join parts ++ Segment.join more := List.flatMap_append

/-- **Segments with others behind them** are cut off again when these are changed: the stretches
among them are closed, and what follows a plain one matters only by its first character. -/
theorem segments_join_append {cs rest : List Char} {parts more : List Segment}
    (h : segments cs = parts ++ more) (hmore : more ≠ [])
    (hrest : rest.head? = some '\x7b' → (Segment.join more).head? = some '\x7b') :
    segments (Segment.join parts ++ rest) = parts ++ segments rest := by
  induction parts generalizing cs with
  | nil => rfl
  | cons part parts ih =>
      rw [List.cons_append] at h
      obtain ⟨behind, hbehind, hpart⟩ := segments_eq_cons h
      have hcut := ih hbehind
      have hne : behind ≠ [] := by
        rintro rfl
        rw [segments_nil] at hbehind
        exact List.append_ne_nil_of_right_ne_nil parts hmore hbehind.symm
      rcases hpart with ⟨first, rfl, hshielded⟩ | ⟨c, rfl, rfl, hshielded⟩
      · have hstretch := isStretch_of_shielded? hshielded hne
        have hnext := hstretch.shielded?_eq (Segment.join parts ++ rest)
        rw [← List.append_assoc] at hnext
        exact (segments_of_shielded? hnext).trans (congrArg (List.cons _) hcut)
      · have halone := (shielded?_eq_none_iff c behind).mp hshielded
        have hnext : StandsAlone c (Segment.join parts ++ rest) := by
          refine halone.of_head hne fun hbrace => ?_
          rw [← flatten_segments behind, hbehind, Segment.join_append]
          cases hparts : Segment.join parts with
          | nil =>
              rw [hparts] at hbrace
              exact hrest hbrace
          | cons d inner =>
              rw [hparts] at hbrace
              exact hbrace
        have hsegments := segments_of_shielded?_eq_none ((shielded?_eq_none_iff c _).mpr hnext)
        exact hsegments.trans (congrArg (List.cons _) hcut)

end ShellExpansion.Lexical
