import ShellExpansion.Proofs.Lexical.Segment

/-! # Balanced texts

A text is balanced (`Balanced`) if its delimiters come in pairs, outside quoted sections and
backslash pairs.  The search for a closing delimiter counts the pairs that are open and remembers
the quotes it stands in.  It passes over every balanced text (`Balanced.passes`), and what it found
from within quotes and open pairs leads out of all of them (`leadsOut_of_splitClosingFrom`).  So it
finds the delimiter that has a balanced text in front of it, and no other
(`splitClosing?_eq_some_iff`). -/

namespace ShellExpansion.Lexical

variable {opener closer : Char}

/-! ### Quoted sections are passed over -/

theorem splitClosingFrom_single_append {inside : List Char} (hinside : '\'' ∉ inside)
    (depth : ℕ) (rest : List Char) :
    splitClosingFrom opener closer .single depth (inside ++ '\'' :: rest) =
      (splitClosingFrom opener closer .bare depth rest).map (appendFirst (inside ++ ['\''])) := by
  induction inside with
  | nil =>
      rw [List.nil_append, splitClosingFrom, if_pos rfl]
      rfl
  | cons c inside ih =>
      have hc : c ≠ '\'' := (List.ne_of_not_mem_cons hinside).symm
      rw [List.cons_append, splitClosingFrom, if_neg hc, ih (List.not_mem_of_not_mem_cons hinside),
        Option.map_map]
      rfl

theorem splitClosingFrom_double_append {inside : List Char} (hinside : DoubleQuoted inside)
    (depth : ℕ) (rest : List Char) :
    splitClosingFrom opener closer .double depth (inside ++ '"' :: rest) =
      (splitClosingFrom opener closer .bare depth rest).map (appendFirst (inside ++ ['"'])) := by
  induction hinside with
  | nil =>
      rw [List.nil_append, splitClosingFrom_double_cons (by decide), if_pos rfl]
      rfl
  | char hquote hslash _ ih =>
      rw [List.cons_append, splitClosingFrom_double_cons hslash, if_neg hquote, ih, Option.map_map]
      rfl
  | pair c _ ih =>
      rw [List.cons_append, List.cons_append, splitClosingFrom, ih, Option.map_map]
      rfl

theorem Passes.escaped (c : Char) {rest : List Char} (h : Passes opener closer rest) :
    Passes opener closer ('\\' :: c :: rest) := by
  intro depth behind
  rw [List.cons_append, List.cons_append, splitClosingFrom, h, Option.map_map]
  rfl

theorem Passes.singleQuoted {inside rest : List Char} (hinside : '\'' ∉ inside)
    (h : Passes opener closer rest) : Passes opener closer ('\'' :: (inside ++ '\'' :: rest)) := by
  intro depth behind
  rw [List.cons_append, splitClosingFrom_bare_cons (by decide), if_pos rfl, List.append_assoc,
    List.cons_append, splitClosingFrom_single_append hinside, h, Option.map_map, Option.map_map]
  refine congrArg (Option.map · _) (funext fun parts => ?_)
  simp [appendFirst, consFirst]

theorem Passes.doubleQuoted {inside rest : List Char} (hinside : DoubleQuoted inside)
    (h : Passes opener closer rest) : Passes opener closer ('"' :: (inside ++ '"' :: rest)) := by
  intro depth behind
  rw [List.cons_append, splitClosingFrom_bare_cons (by decide), if_neg (by decide), if_pos rfl,
    List.append_assoc, List.cons_append, splitClosingFrom_double_append hinside, h,
    Option.map_map, Option.map_map]
  refine congrArg (Option.map · _) (funext fun parts => ?_)
  simp [appendFirst, consFirst]

/-! ### Balanced texts -/

/-- Two characters that can be delimiters: they are different, and no quotes or backslashes. -/
structure AreDelimiters (opener closer : Char) : Prop where
  closer_ne : closer ≠ opener
  opener_spec : opener ≠ '\\' ∧ opener ≠ '\'' ∧ opener ≠ '"'
  closer_spec : closer ≠ '\\' ∧ closer ≠ '\'' ∧ closer ≠ '"'

variable (opener closer) in
/-- The text is made up of characters without a meaning of their own, backslash pairs, sections in
single and in double quotes, and balanced texts between the delimiters. -/
inductive Balanced : List Char → Prop
  | nil : Balanced []
  | plain {c : Char} {rest : List Char} (hc : c ∉ ['\\', '\'', '"', opener, closer])
      (hrest : Balanced rest) : Balanced (c :: rest)
  | escaped (c : Char) {rest : List Char} (hrest : Balanced rest) : Balanced ('\\' :: c :: rest)
  | single {inside rest : List Char} (hinside : '\'' ∉ inside) (hrest : Balanced rest) :
      Balanced ('\'' :: (inside ++ '\'' :: rest))
  | double {inside rest : List Char} (hinside : DoubleQuoted inside) (hrest : Balanced rest) :
      Balanced ('"' :: (inside ++ '"' :: rest))
  | pair {inside rest : List Char} (hinside : Balanced inside) (hrest : Balanced rest) :
      Balanced (opener :: (inside ++ closer :: rest))

theorem Balanced.append {front rest : List Char} (hfront : Balanced opener closer front)
    (hrest : Balanced opener closer rest) : Balanced opener closer (front ++ rest) := by
  induction hfront with
  | nil => exact hrest
  | plain hc _ ih => exact .plain hc ih
  | escaped c _ ih => exact .escaped c ih
  | single hinside _ ih =>
      rw [List.cons_append, List.append_assoc, List.cons_append]
      exact .single hinside ih
  | double hinside _ ih =>
      rw [List.cons_append, List.append_assoc, List.cons_append]
      exact .double hinside ih
  | pair hinside _ _ ih =>
      rw [List.cons_append, List.append_assoc, List.cons_append]
      exact .pair hinside ih

/-- **A balanced text is passed over** by the search for the closing delimiter. -/
theorem Balanced.passes (hdelimiters : AreDelimiters opener closer) {text : List Char}
    (h : Balanced opener closer text) : Passes opener closer text := by
  induction h with
  | nil => exact .nil
  | plain hc _ ih =>
      simp only [List.mem_cons, List.not_mem_nil, or_false, not_or] at hc
      obtain ⟨hslash, hsingle, hdouble, hopener, hcloser⟩ := hc
      exact (passes_singleton hslash hsingle hdouble hopener hcloser).append ih
  | escaped c _ ih => exact ih.escaped c
  | single hinside _ ih => exact .singleQuoted hinside ih
  | double hinside _ ih => exact .doubleQuoted hinside ih
  | pair _ _ ih ihrest =>
      have hpair := (ih.enclose hdelimiters.closer_ne hdelimiters.opener_spec
        hdelimiters.closer_spec).append ihrest
      rwa [List.cons_append, List.append_assoc, List.singleton_append] at hpair

/-! ### Out of open pairs -/

variable (opener closer) in
/-- Behind the text, as many pairs are closed as were open in front of it, and it closes no more:
it is a balanced text for each of them with its closing delimiter, and one more balanced text. -/
inductive ClosesPairs : ℕ → List Char → Prop
  | none {text : List Char} (htext : Balanced opener closer text) : ClosesPairs 0 text
  | pair {depth : ℕ} {text rest : List Char} (htext : Balanced opener closer text)
      (hrest : ClosesPairs depth rest) : ClosesPairs (depth + 1) (text ++ closer :: rest)

namespace ClosesPairs

variable {depth : ℕ} {front text : List Char}

/-- A balanced text in front changes nothing. -/
theorem behind (hfront : Balanced opener closer front) (h : ClosesPairs opener closer depth text) :
    ClosesPairs opener closer depth (front ++ text) := by
  cases h with
  | none htext => exact .none (hfront.append htext)
  | pair htext hrest =>
      rw [← List.append_assoc]
      exact .pair (hfront.append htext) hrest

/-- An opening delimiter in front opens the first of the pairs. -/
theorem opened (h : ClosesPairs opener closer (depth + 1) text) :
    ClosesPairs opener closer depth (opener :: text) := by
  cases h with
  | @pair _ text rest htext hrest =>
      have hbehind := hrest.behind (.pair htext .nil)
      rwa [List.cons_append, List.append_assoc, List.singleton_append] at hbehind

end ClosesPairs

variable (opener closer) in
/-- The text closes the quotes in which it begins, if there are any, and then the open pairs. -/
def LeadsOut : Quoting → ℕ → List Char → Prop
  | .bare, depth, text => ClosesPairs opener closer depth text
  | .single, depth, text => ∃ inside rest, text = inside ++ '\'' :: rest ∧ '\'' ∉ inside ∧
      ClosesPairs opener closer depth rest
  | .double, depth, text => ∃ inside rest, text = inside ++ '"' :: rest ∧ DoubleQuoted inside ∧
      ClosesPairs opener closer depth rest

/-- **The delimiter that is found closes the outermost of the open pairs.** -/
theorem leadsOut_of_splitClosingFrom {quoting : Quoting} {depth : ℕ} {cs inside after : List Char}
    (h : splitClosingFrom opener closer quoting depth cs = some (inside, after)) :
    LeadsOut opener closer quoting depth inside := by
  fun_induction splitClosingFrom opener closer quoting depth cs generalizing inside with
  | case1 => cases h
  | case2 depth c rest ih =>
      obtain ⟨inside, rfl, hfound⟩ := eq_some_of_map_consFirst h
      have hinside := ih hfound
      by_cases hc : c = '\''
      · rw [if_pos hc] at hinside
        exact ⟨[], inside, by rw [hc, List.nil_append], List.not_mem_nil, hinside⟩
      · rw [if_neg hc] at hinside
        obtain ⟨quoted, behind, rfl, hquoted, hbehind⟩ := hinside
        have hnot : '\'' ∉ c :: quoted := List.not_mem_cons_of_ne_of_not_mem (Ne.symm hc) hquoted
        exact ⟨c :: quoted, behind, rfl, hnot, hbehind⟩
  | case3 depth c rest ih =>
      obtain ⟨inside, rfl, hfound⟩ := eq_some_of_map_consPair h
      obtain ⟨quoted, behind, rfl, hquoted, hbehind⟩ := ih hfound
      exact ⟨'\\' :: c :: quoted, behind, rfl, hquoted.pair c, hbehind⟩
  | case4 depth c rest hc ih =>
      obtain ⟨inside, rfl, hfound⟩ := eq_some_of_map_consFirst h
      have hinside := ih hfound
      have hslash := ne_backslash_of_map hc h
      by_cases hquote : c = '"'
      · rw [if_pos hquote] at hinside
        exact ⟨[], inside, by rw [hquote, List.nil_append], .nil, hinside⟩
      · rw [if_neg hquote] at hinside
        obtain ⟨quoted, behind, rfl, hquoted, hbehind⟩ := hinside
        exact ⟨c :: quoted, behind, rfl, .char hquote hslash hquoted, hbehind⟩
  | case5 depth c rest ih =>
      obtain ⟨inside, rfl, hfound⟩ := eq_some_of_map_consPair h
      exact (ih hfound).behind (.escaped c .nil)
  | case6 depth rest hc ih =>
      obtain ⟨inside, rfl, hfound⟩ := eq_some_of_map_consFirst h
      obtain ⟨quoted, behind, rfl, hquoted, hbehind⟩ := ih hfound
      have hfront := hbehind.behind (.single hquoted .nil)
      rwa [List.cons_append, List.append_assoc, List.singleton_append] at hfront
  | case7 depth rest hc _ ih =>
      obtain ⟨inside, rfl, hfound⟩ := eq_some_of_map_consFirst h
      obtain ⟨quoted, behind, rfl, hquoted, hbehind⟩ := ih hfound
      have hfront := hbehind.behind (.double hquoted .nil)
      rwa [List.cons_append, List.append_assoc, List.singleton_append] at hfront
  | case8 depth rest hc _ _ ih =>
      obtain ⟨inside, rfl, hfound⟩ := eq_some_of_map_consFirst h
      exact ClosesPairs.opened (ih hfound)
  | case9 rest hc _ _ _ =>
      obtain ⟨rfl, rfl⟩ := Prod.mk.inj (Option.some.inj h)
      exact .none .nil
  | case10 rest hc depth _ _ _ ih =>
      obtain ⟨inside, rfl, hfound⟩ := eq_some_of_map_consFirst h
      exact .pair .nil (ih hfound)
  | case11 depth c rest hc hsingle hdouble hopener hcloser ih =>
      obtain ⟨inside, rfl, hfound⟩ := eq_some_of_map_consFirst h
      have hslash := ne_backslash_of_map hc h
      have hplain : Balanced opener closer [c] :=
        .plain (by simp [hslash, hsingle, hdouble, hopener, hcloser]) .nil
      exact (ih hfound).behind hplain

/-- **The closing delimiter is the one that has a balanced text in front of it.** -/
theorem splitClosing?_eq_some_iff (hdelimiters : AreDelimiters opener closer)
    {cs inside after : List Char} :
    splitClosing? opener closer cs = some (inside, after) ↔
      cs = inside ++ closer :: after ∧ Balanced opener closer inside := by
  constructor
  · intro h
    have hout : ClosesPairs opener closer 0 inside := leadsOut_of_splitClosingFrom h
    cases hout with
    | none htext => exact ⟨eq_append_of_splitClosing? h, htext⟩
  · rintro ⟨rfl, hbalanced⟩
    have hcloses := (hbalanced.passes hdelimiters).closes hdelimiters.closer_ne
      hdelimiters.closer_spec
    exact hcloses.splitClosing?_eq hdelimiters.closer_spec.1 after

end ShellExpansion.Lexical
