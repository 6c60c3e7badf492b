import ShellExpansion.Proofs.Brace.Word

/-! # Brace expansion computes the meaning of brace words

The segments of a brace word are balanced (`Balanced`): the walks that look for the end of a group
and for its commas pass over them and go on behind them as they came.  Hence a group is cut at its
own brace and at its own commas only, whatever stands around it, and the expansion of a word in
front of any other segments, unmatched closing braces among them, is the meaning of the word
combined with the expansion of what follows (`choices_wordSegments_append`).  The case of nothing
behind the word is `expand_wordText`. -/

namespace ShellExpansion.Brace

open ShellExpansion.Lexical

/-! ### Segments of a word -/

/-- The segments of a stretch. -/
def Stretch.segments : Stretch → List Segment
  | plain text _ => text.map .plain
  | s => [.shield s.text]

mutual

/-- The segments of a piece. -/
def Piece.segments : Piece → List Segment
  | .stretch s => s.segments
  | .choice first second others =>
    .plain '\x7b' :: (wordSegments first ++ .plain ',' ::
      (wordSegments second ++ (otherSegments others ++ [.plain '\x7d'])))
  | .braced word => .plain '\x7b' :: (wordSegments word ++ [.plain '\x7d'])

/-- The segments of a word. -/
def wordSegments : List Piece → List Segment
  | [] => []
  | piece :: word => piece.segments ++ wordSegments word

/-- The segments of further words of a group, with the comma in front of each. -/
def otherSegments : List (List Piece) → List Segment
  | [] => []
  | word :: words => .plain ',' :: (wordSegments word ++ otherSegments words)

end

theorem isBare_of_isOrdinary {c : Char} (h : isOrdinary c = true) : IsBare c := by
  simp only [isOrdinary, Bool.and_eq_true, bne_iff_ne] at h
  obtain ⟨⟨⟨⟨_, hslash⟩, hsingle⟩, hdouble⟩, hdollar⟩ := h
  exact ⟨hslash, hsingle, hdouble, hdollar⟩

theorem Stretch.segments_append (s : Stretch) (rest : List Char) :
    Lexical.segments (s.text ++ rest) = s.segments ++ Lexical.segments rest := by
  cases s with
  | plain text ordinary =>
      simp only [Stretch.text, Stretch.segments]
      induction text with
      | nil => rfl
      | cons c text ih =>
          have hc := isBare_of_isOrdinary (ordinary c List.mem_cons_self)
          have hrest := ih fun d hd => ordinary d (List.mem_cons_of_mem c hd)
          rw [List.cons_append, segments_plain hc, hrest]
          rfl
  | escaped c => exact segments_escaped c rest
  | singleQuoted text closed =>
      simpa [Stretch.text, Stretch.segments] using segments_singleQuoted closed rest
  | doubleQuoted text closed =>
      simpa [Stretch.text, Stretch.segments] using segments_doubleQuoted closed rest
  | expansion text closed =>
      simpa [Stretch.text, Stretch.segments] using segments_expansion closed rest

theorem segments_opening (rest : List Char) :
    segments ('\x7b' :: rest) = .plain '\x7b' :: segments rest :=
  segments_plain (by unfold IsBare; decide) rest

theorem segments_closing (rest : List Char) :
    segments ('\x7d' :: rest) = .plain '\x7d' :: segments rest :=
  segments_plain (by unfold IsBare; decide) rest

theorem segments_comma (rest : List Char) :
    segments (',' :: rest) = .plain ',' :: segments rest :=
  segments_plain (by unfold IsBare; decide) rest

mutual

theorem Piece.segments_append : ∀ (piece : Piece) (rest : List Char),
    Lexical.segments (piece.text ++ rest) = piece.segments ++ Lexical.segments rest
  | .stretch s, rest => s.segments_append rest
  | .choice first second others, rest => by
      simp only [Piece.text, Piece.segments, List.cons_append, List.append_assoc, List.nil_append]
      rw [segments_opening, wordSegments_append, segments_comma, wordSegments_append,
        otherSegments_append, segments_closing]
  | .braced word, rest => by
      simp only [Piece.text, Piece.segments, List.cons_append, List.append_assoc, List.nil_append]
      rw [segments_opening, wordSegments_append, segments_closing]

theorem wordSegments_append : ∀ (word : List Piece) (rest : List Char),
    segments (wordText word ++ rest) = wordSegments word ++ segments rest
  | [], _ => rfl
  | piece :: word, rest => by
      rw [wordText, wordSegments, List.append_assoc, List.append_assoc, piece.segments_append,
        wordSegments_append]

theorem otherSegments_append : ∀ (words : List (List Piece)) (rest : List Char),
    segments (otherTexts words ++ rest) = otherSegments words ++ segments rest
  | [], _ => rfl
  | word :: words, rest => by
      simp only [otherTexts, otherSegments, List.cons_append, List.append_assoc]
      rw [segments_comma, wordSegments_append, otherSegments_append]

end

theorem segments_wordText (word : List Piece) : segments (wordText word) = wordSegments word := by
  simpa [segments_nil] using wordSegments_append word []

theorem join_wordSegments (word : List Piece) :
    Segment.join (wordSegments word) = wordText word := by
  rw [← segments_wordText, flatten_segments]

/-! ### Balanced segments -/

theorem splitBrace?_opening (depth : ℕ) (rest : List Segment) :
    splitBrace? depth (.plain '\x7b' :: rest) =
      (splitBrace? (depth + 1) rest).map (appendFirst [.plain '\x7b']) := rfl

theorem splitBrace?_closing (depth : ℕ) (rest : List Segment) :
    splitBrace? (depth + 1) (.plain '\x7d' :: rest) =
      (splitBrace? depth rest).map (appendFirst [.plain '\x7d']) := rfl

/-- The walks over segments pass over these and go on behind them as they came: the one that
looks for a closing brace always, the one that looks for commas from the depth `low` on. -/
structure Balanced (low : ℕ) (segs : List Segment) : Prop where
  brace : ∀ depth rest, splitBrace? depth (segs ++ rest) =
    (splitBrace? depth rest).map (appendFirst segs)
  commas : ∀ (depth : Int) rest, low ≤ depth →
    splitCommas depth (segs ++ rest) = segs.foldr consHead (splitCommas depth rest)

namespace Balanced

variable {low : ℕ} {segs segs' : List Segment}

theorem nil : Balanced low [] := by
  refine ⟨fun depth rest => ?_, fun _ _ _ => rfl⟩
  rw [appendFirst_nil, Option.map_id_fun]
  rfl

theorem append (h : Balanced low segs) (h' : Balanced low segs') :
    Balanced low (segs ++ segs') := by
  refine ⟨fun depth rest => ?_, fun depth rest hd => ?_⟩
  · rw [List.append_assoc, h.brace, h'.brace, Option.map_map, appendFirst_append]
  · rw [List.append_assoc, h.commas depth _ hd, h'.commas depth _ hd, List.foldr_append]

theorem mono (h : Balanced low segs) : Balanced (low + 1) segs :=
  ⟨h.brace, fun depth rest hd => h.commas depth rest (by omega)⟩

/-- A segment that is no brace, and no comma unless commas are passed over. -/
theorem singleton {segment : Segment} (hopening : segment.isPlain '\x7b' = false)
    (hclosing : segment.isPlain '\x7d' = false) (hcomma : segment.isPlain ',' = false ∨ 1 ≤ low) :
    Balanced low [segment] := by
  refine ⟨fun depth rest => ?_, fun depth rest hd => ?_⟩
  · simp only [List.cons_append, List.nil_append, splitBrace?, hopening, hclosing]
    rfl
  · have hnot : (segment.isPlain ',' && depth == 0) = false := by
      rcases hcomma with h | h
      · rw [h, Bool.false_and]
      · have : (depth == 0) = false := beq_false_of_ne (by omega)
        rw [this, Bool.and_false]
    simp [splitCommas, hnot, hopening, hclosing]

theorem of_forall (h : ∀ segment ∈ segs, Balanced low [segment]) : Balanced low segs := by
  induction segs with
  | nil => exact .nil
  | cons segment segs ih =>
      have hs := h segment List.mem_cons_self
      exact hs.append (ih fun t ht => h t (List.mem_cons_of_mem segment ht))

/-- Inside braces all commas are passed over. -/
theorem enclose (h : Balanced 1 segs) :
    Balanced 0 (.plain '\x7b' :: (segs ++ [.plain '\x7d'])) := by
  refine ⟨fun depth rest => ?_, fun depth rest hd => ?_⟩
  · rw [List.cons_append, List.append_assoc]
    rw [splitBrace?_opening, h.brace, List.singleton_append, splitBrace?_closing, Option.map_map,
      Option.map_map]
    refine congrArg (Option.map · _) (funext fun parts => ?_)
    simp [appendFirst]
  · rw [List.cons_append, List.append_assoc]
    simp [splitCommas, Segment.isPlain, h.commas (depth + 1) _ (by omega)]

end Balanced

theorem Stretch.balanced (s : Stretch) : Balanced 0 s.segments := by
  cases s with
  | plain text ordinary =>
      refine .of_forall fun segment hs => ?_
      obtain ⟨c, hc, rfl⟩ := List.mem_map.mp hs
      have ho := ordinary c hc
      simp only [isOrdinary, Bool.and_eq_true, bne_iff_ne] at ho
      exact .singleton (by simp_all [Segment.isPlain]) (by simp_all [Segment.isPlain])
        (.inl (by simp_all [Segment.isPlain]))
  | _ => exact .singleton rfl rfl (.inl rfl)

theorem balanced_comma : Balanced 1 [.plain ','] := .singleton rfl rfl (.inr (Nat.le_refl 1))

mutual

theorem Piece.balanced : ∀ piece : Piece, Balanced 0 piece.segments
  | .stretch s => s.balanced
  | .choice first second others => by
      have h := (wordSegments_balanced first).mono.append (balanced_comma.append
        ((wordSegments_balanced second).mono.append (otherSegments_balanced others)))
      simpa [Piece.segments] using h.enclose
  | .braced word => (wordSegments_balanced word).mono.enclose

theorem wordSegments_balanced : ∀ word : List Piece, Balanced 0 (wordSegments word)
  | [] => .nil
  | piece :: word => piece.balanced.append (wordSegments_balanced word)

theorem otherSegments_balanced : ∀ words : List (List Piece), Balanced 1 (otherSegments words)
  | [] => .nil
  | word :: words =>
      balanced_comma.append
        ((wordSegments_balanced word).mono.append (otherSegments_balanced words))

end

/-! ### The inside of a group -/

theorem foldr_consHead (segs first : List Segment) (rest : List (List Segment)) :
    segs.foldr consHead (first :: rest) = (segs ++ first) :: rest := by
  induction segs with
  | nil => rfl
  | cons segment segs ih =>
      rw [List.foldr_cons, ih]
      rfl

theorem splitBrace?_of_balanced {low : ℕ} {segs : List Segment} (h : Balanced low segs)
    (rest : List Segment) : splitBrace? 0 (segs ++ .plain '\x7d' :: rest) = some (segs, rest) := by
  rw [h.brace]
  simp [splitBrace?, Segment.isPlain, appendFirst]

theorem splitCommas_word (word : List Piece) :
    splitCommas 0 (wordSegments word) = [wordSegments word] := by
  have h := (wordSegments_balanced word).commas 0 [] (Int.le_refl 0)
  rw [List.append_nil] at h
  rw [h, splitCommas, foldr_consHead, List.append_nil]

theorem splitCommas_words (word : List Piece) (words : List (List Piece)) :
    splitCommas 0 (wordSegments word ++ otherSegments words) =
      (word :: words).map wordSegments := by
  induction words generalizing word with
  | nil => rw [otherSegments, List.append_nil, splitCommas_word, List.map_singleton]
  | cons next words ih =>
      have hcomma : splitCommas 0 (.plain ',' :: (wordSegments next ++ otherSegments words)) =
          [] :: splitCommas 0 (wordSegments next ++ otherSegments words) := rfl
      rw [otherSegments, (wordSegments_balanced word).commas 0 _ (Int.le_refl 0), hcomma, ih,
        foldr_consHead, List.append_nil, List.map_cons (l := next :: words)]

/-! ### Choices -/

theorem choices_nil : choices [] = .ok [[]] := by rw [choices]

/-- A segment that opens no group stands in front of all choices. -/
theorem choices_cons {segment : Segment} (h : segment.isPlain '\x7b' = false)
    (rest : List Segment) :
    choices (segment :: rest) = do return (← choices rest).map (segment.text ++ ·) := by
  rw [choices, h]
  rfl

theorem mapM_attach_choices (words : List (List Segment)) :
    (words.attach.mapM fun ⟨word, _⟩ => choices word) = words.mapM choices := by
  calc (words.attach.mapM fun ⟨word, _⟩ => choices word)
      = words.attach.unattach.mapM choices := List.mapM_subtype fun _ _ => rfl
    _ = words.mapM choices := by rw [List.unattach_attach]

/-- A group is replaced by its words, or by its sequence, or its opening brace is literal. -/
theorem choices_group {rest inside after : List Segment}
    (h : splitBrace? 0 rest = some (inside, after)) :
    choices (.plain '\x7b' :: rest) =
      if 1 < (splitCommas 0 inside).length then do
        let heads ← (splitCommas 0 inside).mapM choices
        return pairs heads.flatten (← choices after)
      else do
        match ← sequence (Segment.join inside) with
        | some heads => return pairs heads (← choices after)
        | none => return (← choices rest).map ('\x7b' :: ·) := by
  rw [choices]
  split
  · split
    · next h' => rw [h] at h'; cases h'
    · next h' =>
        rw [h] at h'
        obtain ⟨rfl, rfl⟩ := Prod.mk.inj (Option.some.inj h')
        dsimp only
        rewrite [mapM_attach_choices]
        rfl
  · next hne => exact absurd rfl hne

/-! ### Concatenations -/

theorem pairs_eq_concatenations (heads tails : List (List Char)) :
    pairs heads tails = concatenations heads tails := by
  induction heads with
  | nil => rfl
  | cons head heads ih =>
      rw [concatenations, List.product_cons, List.map_append, ← concatenations, ← ih, List.map_map]
      rfl

theorem concatenations_singleton (head : List Char) (tails : List (List Char)) :
    concatenations [head] tails = tails.map (head ++ ·) := by
  rw [← pairs_eq_concatenations, pairs, List.flatMap_singleton]

theorem concatenations_nil_right (heads : List (List Char)) :
    concatenations heads [[]] = heads := by
  rw [← pairs_eq_concatenations, pairs]
  simp

theorem concatenations_assoc (first second third : List (List Char)) :
    concatenations (concatenations first second) third =
      concatenations first (concatenations second third) := by
  simp only [← pairs_eq_concatenations, pairs]
  simp [List.flatMap_assoc, List.map_flatMap, List.flatMap_map, Function.comp_def]

/-! ### The expansion of a word -/

theorem Stretch.choices_append (s : Stretch) (rest : List Segment) :
    choices (s.segments ++ rest) = do return concatenations [s.text] (← choices rest) := by
  have hsingle : ∀ segment : Segment, segment.isPlain '\x7b' = false →
      choices (segment :: rest) = do return concatenations [segment.text] (← choices rest) := by
    intro segment h
    simp only [choices_cons h, concatenations_singleton]
  cases s with
  | plain text ordinary =>
      simp only [Stretch.segments, Stretch.text, concatenations_singleton]
      induction text with
      | nil => simp
      | cons c text ih =>
          have hc := ordinary c List.mem_cons_self
          have hopening : (Segment.plain c).isPlain '\x7b' = false := by
            simp_all [isOrdinary, Segment.isPlain]
          rw [List.map_cons, List.cons_append, choices_cons hopening,
            ih fun d hd => ordinary d (List.mem_cons_of_mem c hd)]
          simp [Segment.text, Function.comp_def]
  | _ => exact hsingle _ rfl

/-- A group of words stands for the texts of its words, one word after the other. -/
theorem meaning_choice (first second : List Piece) (others : List (List Piece)) :
    (Piece.choice first second others).meaning = otherMeanings (first :: second :: others) := by
  simp only [Piece.meaning, otherMeanings, bind_assoc, pure_bind]

theorem concatenations_braces (heads tails : List (List Char)) :
    (concatenations heads (tails.map ((Segment.plain '\x7d').text ++ ·))).map ('\x7b' :: ·) =
      concatenations (heads.map fun text => '\x7b' :: (text ++ ['\x7d'])) tails := by
  simp only [← pairs_eq_concatenations, pairs]
  simp [List.map_flatMap, List.flatMap_map, Function.comp_def, Segment.text]

/-- The expansion in front of other segments gives the expansion alone. -/
theorem choices_wordSegments_of_append {word : List Piece}
    (h : choices (wordSegments word ++ []) = do
      return concatenations (← wordMeaning word) (← choices [])) :
    choices (wordSegments word) = wordMeaning word := by
  have hnil : choices [] = pure [[]] := choices_nil
  rw [List.append_nil, hnil] at h
  simpa only [pure_bind, concatenations_nil_right, bind_pure] using h

/-- One word more in a group. -/
theorem mapM_choices_cons {word : List Piece} {words : List (List Piece)}
    (hword : choices (wordSegments word) = wordMeaning word)
    (hwords : (do return (← (words.map wordSegments).mapM choices).flatten) = otherMeanings words) :
    (do return (← ((word :: words).map wordSegments).mapM choices).flatten) =
      otherMeanings (word :: words) := by
  rw [List.map_cons, List.mapM_cons, otherMeanings, ← hwords, hword]
  simp only [bind_assoc, pure_bind, List.flatten_cons]

mutual

theorem Piece.choices_append : ∀ (piece : Piece) (rest : List Segment),
    choices (piece.segments ++ rest) = do
      return concatenations (← piece.meaning) (← choices rest)
  | .stretch s, rest => by
      have hs : (Piece.stretch s).segments = s.segments := rfl
      rw [hs, s.choices_append, Piece.meaning, pure_bind]
  | .choice first second others, rest => by
      have hinside : splitBrace? 0 (wordSegments first ++ otherSegments (second :: others) ++
          .plain '\x7d' :: rest) =
            some (wordSegments first ++ otherSegments (second :: others), rest) :=
        splitBrace?_of_balanced ((wordSegments_balanced first).mono.append
          (otherSegments_balanced (second :: others))) rest
      have hgroup := choices_group hinside
      rw [splitCommas_words, List.length_map, if_pos (by simp)] at hgroup
      have hmeanings := mapM_choices_cons
        (choices_wordSegments_of_append (choices_wordSegments_append first []))
        (mapM_choices_cons
          (choices_wordSegments_of_append (choices_wordSegments_append second []))
          (mapM_choices_wordSegments others))
      have hsegments : (Piece.choice first second others).segments ++ rest =
          .plain '\x7b' :: (wordSegments first ++ otherSegments (second :: others) ++
            .plain '\x7d' :: rest) := by
        simp [Piece.segments, otherSegments]
      rw [hsegments, hgroup, meaning_choice, ← hmeanings]
      simp only [bind_assoc, pure_bind, pairs_eq_concatenations]
  | .braced word, rest => by
      have hgroup := choices_group (splitBrace?_of_balanced (wordSegments_balanced word) rest)
      rw [splitCommas_word, if_neg (by simp), join_wordSegments] at hgroup
      -- the closing brace is left over in front of what follows
      have hliteral := choices_wordSegments_append word (.plain '\x7d' :: rest)
      rw [choices_cons rfl] at hliteral
      rw [Piece.segments, List.cons_append, List.append_assoc, List.singleton_append, hgroup,
        Piece.meaning, bind_assoc]
      refine congrArg (sequence (wordText word) >>= ·) (funext fun found => ?_)
      cases found with
      | some values =>
          simp only [pairs_eq_concatenations, pure_bind]
      | none =>
          simp only [hliteral, bind_assoc, pure_bind, concatenations_braces]

/-- **The expansion of a brace word in front of other segments is its meaning combined with the
expansion of what follows**, unmatched closing braces included. -/
theorem choices_wordSegments_append : ∀ (word : List Piece) (rest : List Segment),
    choices (wordSegments word ++ rest) = do
      return concatenations (← wordMeaning word) (← choices rest)
  | [], rest => by
      simp only [wordSegments, wordMeaning, pure_bind, concatenations_singleton, List.nil_append,
        List.map_id_fun', id, bind_pure]
  | piece :: word, rest => by
      rw [wordSegments, List.append_assoc, piece.choices_append, choices_wordSegments_append word,
        wordMeaning]
      simp only [bind_assoc, pure_bind, concatenations_assoc]

theorem mapM_choices_wordSegments : ∀ words : List (List Piece),
    (do return (← (words.map wordSegments).mapM choices).flatten) = otherMeanings words
  | [] => rfl
  | word :: words => by
      have hword := choices_wordSegments_of_append (choices_wordSegments_append word [])
      exact mapM_choices_cons hword (mapM_choices_wordSegments words)

end

/-- **Brace expansion gives the meaning of every brace word**, and fails only where the meaning
does, at a sequence whose numbers are too long to be read. -/
theorem expand_wordText (word : List Piece) :
    expand (String.ofList (wordText word)) = (wordMeaning word).map (·.map String.ofList) := by
  rw [expand, String.toList_ofList, segments_wordText,
    choices_wordSegments_of_append (choices_wordSegments_append word [])]

end ShellExpansion.Brace
