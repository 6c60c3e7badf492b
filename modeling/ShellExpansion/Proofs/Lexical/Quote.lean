import Mathlib.Data.List.Basic
import ShellExpansion.Lexical.Quote
import ShellExpansion.Proofs.Lexical.Field

/-! # Quoted texts

A raw text that is made of quotes and backslash pairs alone stands for one text, whoever reads it
(`Quotes`).  Both ways to quote a text write it so (`QuoteStyle.quotes`).  Removing the quotes gives
the text back (`Quotes.unquoteBare_eq`), and since all of the raw text is shielded, it is one word
between separators (`Quotes.isField`). -/

namespace ShellExpansion.Lexical

/-- A way to quote a text. -/
inductive QuoteStyle
  | single
  | double
deriving DecidableEq, Repr

/-- The quoted text. -/
def QuoteStyle.quote : QuoteStyle → String → String
  | single => singleQuote
  | double => doubleQuote

/-- The first text is written in quotes and backslash pairs alone, and stands for the second one. -/
inductive Quotes : List Char → List Char → Prop
  | nil : Quotes [] []
  | escaped (c : Char) {raw text : List Char} (h : Quotes raw text) :
      Quotes ('\\' :: c :: raw) (c :: text)
  | single {inside raw text : List Char} (hinside : '\'' ∉ inside) (h : Quotes raw text) :
      Quotes ('\'' :: (inside ++ '\'' :: raw)) (inside ++ text)
  | double (inside : List Char) {raw text : List Char} (h : Quotes raw text) :
      Quotes ('"' :: (doubleQuoteBody inside ++ '"' :: raw)) (inside ++ text)

/-! ### Both ways to quote -/

/-- A quote in the text ends the section in single quotes, and a new one begins behind it. -/
theorem quotes_singleQuoteBody (cs : List Char) : ∀ front : List Char, '\'' ∉ front →
    Quotes ('\'' :: (front ++ (singleQuoteBody cs ++ ['\'']))) (front ++ cs) := by
  induction cs with
  | nil =>
      intro front hfront
      exact .single hfront .nil
  | cons c cs ih =>
      intro front hfront
      by_cases hc : c = '\''
      · have hrest := ih [] List.not_mem_nil
        subst hc
        exact .single hfront (.escaped '\'' hrest)
      · have hmore : '\'' ∉ front ++ [c] := by
          simp only [List.mem_append, List.mem_singleton, not_or]
          exact ⟨hfront, Ne.symm hc⟩
        have hrest := ih (front ++ [c]) hmore
        simp only [singleQuoteBody, List.flatMap_cons, if_neg hc] at hrest ⊢
        simpa using hrest

theorem QuoteStyle.quotes (style : QuoteStyle) (text : String) :
    Quotes (style.quote text).toList text.toList := by
  cases style with
  | single =>
      have hquotes := quotes_singleQuoteBody text.toList [] List.not_mem_nil
      simpa [QuoteStyle.quote, singleQuote] using hquotes
  | double =>
      have hquotes := Quotes.double text.toList .nil
      simpa [QuoteStyle.quote, doubleQuote] using hquotes

theorem QuoteStyle.quote_ne_nil (style : QuoteStyle) (text : String) :
    (style.quote text).toList ≠ [] := by
  cases style <;> simp [QuoteStyle.quote, singleQuote, doubleQuote]

/-! ### Inside double quotes -/

theorem ne_of_not_isDoubleEscapable {c : Char} (hc : isDoubleEscapable c = false) :
    c ≠ '"' ∧ c ≠ '\\' ∧ c ≠ '$' := by
  simp only [isDoubleEscapable, Bool.or_eq_false_iff, beq_eq_false_iff_ne] at hc
  exact ⟨hc.1.1.1, hc.1.1.2, hc.1.2⟩

theorem doubleQuoteBody_cons_of_pos {c : Char} (hc : isDoubleEscapable c = true) (cs : List Char) :
    doubleQuoteBody (c :: cs) = '\\' :: c :: doubleQuoteBody cs := by
  simp [doubleQuoteBody, hc]

theorem doubleQuoteBody_cons_of_neg {c : Char} (hc : isDoubleEscapable c = false)
    (cs : List Char) : doubleQuoteBody (c :: cs) = c :: doubleQuoteBody cs := by
  simp [doubleQuoteBody, hc]

theorem doubleQuoted_doubleQuoteBody (cs : List Char) : DoubleQuoted (doubleQuoteBody cs) := by
  induction cs with
  | nil => exact .nil
  | cons c cs ih =>
      cases hc : isDoubleEscapable c with
      | true =>
          rw [doubleQuoteBody_cons_of_pos hc]
          exact .pair c ih
      | false =>
          obtain ⟨hquote, hslash, -⟩ := ne_of_not_isDoubleEscapable hc
          rw [doubleQuoteBody_cons_of_neg hc]
          exact .char hquote hslash ih

/-! ### Removing quotes -/

theorem unquoteSingle_append {inside : List Char} (hinside : '\'' ∉ inside) (rest : List Char) :
    unquoteSingle (inside ++ '\'' :: rest) = inside ++ unquoteBare rest := by
  induction inside with
  | nil => rw [List.nil_append, unquoteSingle, if_pos rfl, List.nil_append]
  | cons c inside ih =>
      have hc : c ≠ '\'' := (List.ne_of_not_mem_cons hinside).symm
      rw [List.cons_append, unquoteSingle, if_neg hc, ih (List.not_mem_of_not_mem_cons hinside)]
      rfl

theorem unquoteDouble_cons {c : Char} (hc : c ≠ '\\') (rest : List Char) :
    unquoteDouble (c :: rest) = if c = '"' then unquoteBare rest else c :: unquoteDouble rest := by
  rw [unquoteDouble]
  exact fun _ _ h => absurd h hc

theorem unquoteDouble_append (inside rest : List Char) :
    unquoteDouble (doubleQuoteBody inside ++ '"' :: rest) = inside ++ unquoteBare rest := by
  induction inside with
  | nil =>
      show unquoteDouble ('"' :: rest) = unquoteBare rest
      rw [unquoteDouble_cons (by decide), if_pos rfl]
  | cons c inside ih =>
      cases hc : isDoubleEscapable c with
      | true =>
          rw [doubleQuoteBody_cons_of_pos hc, List.cons_append, List.cons_append, unquoteDouble,
            if_pos hc, ih]
          rfl
      | false =>
          obtain ⟨hquote, hslash, -⟩ := ne_of_not_isDoubleEscapable hc
          rw [doubleQuoteBody_cons_of_neg hc, List.cons_append, unquoteDouble_cons hslash,
            if_neg hquote, ih]
          rfl

theorem unquoteBare_cons {c : Char} (hc : c ≠ '\\') (rest : List Char) :
    unquoteBare (c :: rest) =
      if c = '\'' then unquoteSingle rest
      else if c = '"' then unquoteDouble rest
      else c :: unquoteBare rest := by
  rw [unquoteBare]
  exact fun _ _ h => absurd h hc

theorem unquoteBare_of_forall {cs : List Char} (h : ∀ c ∈ cs, c ≠ '\\' ∧ c ≠ '\'' ∧ c ≠ '"') :
    unquoteBare cs = cs := by
  induction cs with
  | nil => rfl
  | cons c cs ih =>
      obtain ⟨hslash, hsingle, hdouble⟩ := h c List.mem_cons_self
      rw [unquoteBare_cons hslash, if_neg hsingle, if_neg hdouble,
        ih fun d hd => h d (List.mem_cons_of_mem c hd)]

/-- **Removing the quotes gives the text.** -/
theorem Quotes.unquoteBare_eq {raw text : List Char} (h : Quotes raw text) :
    unquoteBare raw = text := by
  induction h with
  | nil => rfl
  | escaped c _ ih => rw [unquoteBare, ih]
  | single hinside _ ih =>
      rw [unquoteBare_cons (by decide), if_pos rfl, unquoteSingle_append hinside, ih]
  | double inside _ ih =>
      rw [unquoteBare_cons (by decide), if_neg (by decide), if_pos rfl, unquoteDouble_append, ih]

theorem QuoteStyle.unquote_quote (style : QuoteStyle) (text : String) :
    unquote (style.quote text) = text := by
  rw [unquote, (style.quotes text).unquoteBare_eq, String.ofList_toList]

/-! ### Segments and words -/

/-- A quoted text is shielded as a whole. -/
theorem Quotes.cutInto {raw text : List Char} (h : Quotes raw text) :
    ∃ shields : List (List Char), shields.flatten = raw ∧ CutInto raw (shields.map .shield) := by
  induction h with
  | nil => exact ⟨[], rfl, fun _ => rfl⟩
  | escaped c _ ih =>
      obtain ⟨shields, rfl, hsegments⟩ := ih
      refine ⟨['\\', c] :: shields, rfl, fun rest => ?_⟩
      rw [List.cons_append, List.cons_append, segments_escaped, hsegments]
      rfl
  | @single inside raw _ hinside _ ih =>
      obtain ⟨shields, rfl, hsegments⟩ := ih
      refine ⟨('\'' :: (inside ++ ['\''])) :: shields, by simp, fun rest => ?_⟩
      rw [List.cons_append, List.append_assoc, List.cons_append, segments_singleQuoted hinside,
        hsegments]
      rfl
  | @double inside raw _ _ ih =>
      obtain ⟨shields, rfl, hsegments⟩ := ih
      refine ⟨('"' :: (doubleQuoteBody inside ++ ['"'])) :: shields, by simp, fun rest => ?_⟩
      rw [List.cons_append, List.append_assoc, List.cons_append,
        segments_doubleQuoted (doubleQuoted_doubleQuoteBody inside), hsegments]
      rfl

/-- A quoted text is a word. -/
theorem Quotes.isField {raw text : List Char} (h : Quotes raw text) (hne : raw ≠ []) :
    IsField raw raw := by
  obtain ⟨shields, -, hcut⟩ := h.cutInto
  refine .of_parts hcut (fun hnil => hne ?_) fun part hpart => ?_
  · rw [← hcut.join_eq, hnil]
    rfl
  · obtain ⟨shield, -, rfl⟩ := List.mem_map.mp hpart
    rfl

theorem QuoteStyle.isField (style : QuoteStyle) (text : String) :
    IsField (style.quote text).toList (style.quote text).toList :=
  (style.quotes text).isField (style.quote_ne_nil text)

/-- **Quoted texts with separators between them are split into these texts.** -/
theorem QuoteStyle.fields_intercalate (style : QuoteStyle) {separator : Char}
    (hseparator : Text.isSeparator separator = true) (texts : List String) :
    fields ((String.singleton separator).intercalate (texts.map style.quote)) =
      texts.map style.quote :=
  Lexical.fields_intercalate hseparator fun text _ => style.isField text

/-! ### Quoting only where a listing must -/

/-- Between separators the raw text is one word, which stands for the value. -/
def ReadsAs (raw value : String) : Prop :=
  ∃ word : String, IsField raw.toList word.toList ∧ unquote word = value

theorem QuoteStyle.readsAs (style : QuoteStyle) (text : String) : ReadsAs (style.quote text) text :=
  ⟨style.quote text, style.isField text, style.unquote_quote text⟩

/-- A listing shows the text without quotes. -/
def isShownBare (text : String) : Bool :=
  match text.toList with
  | [] => false
  | c :: rest => isUnquotedSafe c && endsUnquoted rest

/-- A listing shows the text without quotes, and it ends with a line end. -/
def LosesLineEnd (text : String) : Prop :=
  isShownBare text = true ∧ text.toList.getLast? = some '\n'

instance (text : String) : Decidable (LosesLineEnd text) :=
  inferInstanceAs (Decidable (isShownBare text = true ∧ text.toList.getLast? = some '\n'))

/-- What a text is read as where a listing shows it: a line end that no quotes protect is lost. -/
def reread (text : String) : String :=
  if LosesLineEnd text then String.ofList text.toList.dropLast else text

theorem reread_eq_self_iff {text : String} : reread text = text ↔ ¬LosesLineEnd text := by
  constructor
  · intro h hloses
    rw [reread, if_pos hloses, ← String.toList_inj, String.toList_ofList] at h
    have hne : text.toList ≠ [] := by
      intro hnil
      rw [LosesLineEnd, hnil] at hloses
      cases hloses.2
    have hlength := congrArg List.length h
    have hpos := List.length_pos_iff.mpr hne
    rw [List.length_dropLast] at hlength
    omega
  · intro h
    exact if_neg h

theorem quoteIfNeeded_eq (text : String) :
    quoteIfNeeded text = if isShownBare text then text else singleQuote text := by
  unfold quoteIfNeeded isShownBare
  cases htext : text.toList with
  | nil =>
      rw [singleQuote, htext]
      rfl
  | cons c rest => rfl

theorem exists_of_endsUnquoted {cs : List Char} (h : endsUnquoted cs = true) :
    ∃ front back, cs = front ++ back ∧ (∀ c ∈ front, isUnquotedSafe c = true) ∧
      (back = [] ∨ back = ['\n']) := by
  fun_induction endsUnquoted cs with
  | case1 => exact ⟨[], [], rfl, fun c hc => absurd hc List.not_mem_nil, .inl rfl⟩
  | case2 c =>
      rcases (Bool.or_eq_true _ _).mp h with hsafe | hline
      · exact ⟨[c], [], rfl, List.forall_mem_singleton.mpr hsafe, .inl rfl⟩
      · rw [beq_iff_eq] at hline
        exact ⟨[], [c], rfl, fun d hd => absurd hd List.not_mem_nil, .inr (by rw [hline])⟩
  | case3 c rest _ ih =>
      obtain ⟨hsafe, hrest⟩ := (Bool.and_eq_true _ _).mp h
      obtain ⟨front, back, rfl, hfront, hback⟩ := ih hrest
      exact ⟨c :: front, back, rfl, List.forall_mem_cons.mpr ⟨hsafe, hfront⟩, hback⟩

/-- What is shown without quotes is safe, a line end behind it aside. -/
theorem exists_of_isShownBare {text : String} (h : isShownBare text = true) :
    ∃ front back, text.toList = front ++ back ∧ front ≠ [] ∧
      (∀ c ∈ front, isUnquotedSafe c = true) ∧ (back = [] ∨ back = ['\n']) := by
  unfold isShownBare at h
  cases htext : text.toList with
  | nil =>
      rw [htext] at h
      cases h
  | cons c rest =>
      rw [htext] at h
      obtain ⟨hsafe, hrest⟩ := (Bool.and_eq_true _ _).mp h
      obtain ⟨front, back, rfl, hfront, hback⟩ := exists_of_endsUnquoted hrest
      exact ⟨c :: front, back, rfl, List.cons_ne_nil c front,
        List.forall_mem_cons.mpr ⟨hsafe, hfront⟩, hback⟩

theorem ne_of_isUnquotedSafe {c d : Char} (hc : isUnquotedSafe c = true)
    (hd : isUnquotedSafe d = false) : c ≠ d := by
  rintro rfl
  rw [hc] at hd
  cases hd

theorem isBare_of_isUnquotedSafe {c : Char} (hc : isUnquotedSafe c = true) : IsBare c :=
  ⟨ne_of_isUnquotedSafe hc (by decide), ne_of_isUnquotedSafe hc (by decide),
    ne_of_isUnquotedSafe hc (by decide), ne_of_isUnquotedSafe hc (by decide)⟩

theorem isSeparator_of_isUnquotedSafe {c : Char} (hc : isUnquotedSafe c = true) :
    Text.isSeparator c = false := by
  have hspace := ne_of_isUnquotedSafe hc (d := ' ') (by decide)
  have htab := ne_of_isUnquotedSafe hc (d := '\t') (by decide)
  have hline := ne_of_isUnquotedSafe hc (d := '\n') (by decide)
  simp [Text.isSeparator, hspace, htab, hline]

/-- **What a listing shows is read back**, except for a line end that no quotes protect. -/
theorem readsAs_quoteIfNeeded (text : String) : ReadsAs (quoteIfNeeded text) (reread text) := by
  rw [quoteIfNeeded_eq]
  cases hbare : isShownBare text with
  | false =>
      have hkept : reread text = text := if_neg fun hloses => Bool.noConfusion (hbare ▸ hloses.1)
      rw [hkept]
      exact QuoteStyle.single.readsAs text
  | true =>
      obtain ⟨front, back, htext, hne, hfront, hback⟩ := exists_of_isShownBare hbare
      have hchars : ∀ c ∈ front, IsBare c ∧ Text.isSeparator c = false := fun c hc =>
        ⟨isBare_of_isUnquotedSafe (hfront c hc), isSeparator_of_isUnquotedSafe (hfront c hc)⟩
      have hfield : IsField front front := .of_forall hne hchars
      have hunquote : unquote (String.ofList front) = String.ofList front := by
        rw [unquote, String.toList_ofList, unquoteBare_of_forall]
        exact fun c hc => ⟨(hchars c hc).1.1, (hchars c hc).1.2.1, (hchars c hc).1.2.2.1⟩
      refine ⟨String.ofList front, ?_, ?_⟩
      · rw [if_pos rfl, htext, String.toList_ofList]
        rcases hback with rfl | rfl
        · rwa [List.append_nil]
        · exact hfield.append_separator (by decide)
      · rw [hunquote]
        rcases hback with rfl | rfl
        · have hlast : text.toList.getLast? ≠ some '\n' := by
            rw [htext, List.append_nil]
            intro hline
            have hsafe := hfront '\n' (List.mem_of_getLast? hline)
            exact absurd hsafe (by decide)
          rw [reread, if_neg fun hloses => hlast hloses.2, ← String.toList_inj, htext,
            String.toList_ofList, List.append_nil]
        · have hlast : text.toList.getLast? = some '\n' := by
            rw [htext, List.getLast?_append]
            rfl
          rw [reread, if_pos ⟨hbare, hlast⟩, htext, List.dropLast_concat]

end ShellExpansion.Lexical
