import Mathlib.Data.List.Basic
import ShellExpansion.Lexical.Closing

/-! # Where a closing delimiter is found

Text behind the closing delimiter has no influence on where it is found
(`splitClosing?_append`).  A text is passed over as a whole (`Passes`) when the search for the
closing delimiter, started in front of it, goes on behind it at the same depth; such texts are
closed under concatenation and under putting them between the delimiters, and the delimiter that
closes one of them stands right behind it (`Passes.closes`). -/

namespace ShellExpansion.Lexical

variable {opener closer : Char}

/-! ### One character at a time -/

theorem splitClosingFrom_double_cons {c : Char} (hc : c ≠ '\\') (depth : ℕ) (rest : List Char) :
    splitClosingFrom opener closer .double depth (c :: rest) =
      (splitClosingFrom opener closer (if c = '"' then .bare else .double) depth rest).map
        (consFirst c) := by
  rw [splitClosingFrom]
  exact fun _ _ h => absurd h hc

theorem splitClosingFrom_bare_cons {c : Char} (hc : c ≠ '\\') (depth : ℕ) (rest : List Char) :
    splitClosingFrom opener closer .bare depth (c :: rest) =
      if c = '\'' then (splitClosingFrom opener closer .single depth rest).map (consFirst c)
      else if c = '"' then (splitClosingFrom opener closer .double depth rest).map (consFirst c)
      else if c = opener then
        (splitClosingFrom opener closer .bare (depth + 1) rest).map (consFirst c)
      else if c = closer then
        match depth with
        | 0 => some ([], rest)
        | depth + 1 => (splitClosingFrom opener closer .bare depth rest).map (consFirst c)
      else (splitClosingFrom opener closer .bare depth rest).map (consFirst c) := by
  cases depth with
  | zero =>
      rw [splitClosingFrom]
      exact fun _ _ h => absurd h hc
  | succ depth =>
      rw [splitClosingFrom]
      exact fun _ _ h => absurd h hc

/-! ### Text behind the delimiter -/

theorem eq_some_of_map_consFirst {c : Char} {inside after : List Char}
    {found : Option (List Char × List Char)} (h : found.map (consFirst c) = some (inside, after)) :
    ∃ inside', inside = c :: inside' ∧ found = some (inside', after) := by
  obtain ⟨parts, hparts, heq⟩ := Option.map_eq_some_iff.mp h
  obtain ⟨rfl, rfl⟩ := Prod.mk.inj heq
  exact ⟨parts.1, rfl, hparts⟩

theorem eq_some_of_map_consPair {c d : Char} {inside after : List Char}
    {found : Option (List Char × List Char)}
    (h : found.map (consFirst c ∘ consFirst d) = some (inside, after)) :
    ∃ inside', inside = c :: d :: inside' ∧ found = some (inside', after) := by
  rw [← Option.map_map] at h
  obtain ⟨_, rfl, hpair⟩ := eq_some_of_map_consFirst h
  obtain ⟨inside, rfl, hfound⟩ := eq_some_of_map_consFirst hpair
  exact ⟨inside, rfl, hfound⟩

theorem ne_backslash_of_map {c : Char} {rest : List Char} {quoting : Quoting} {depth : ℕ}
    {parts : List Char × List Char}
    (hc : ∀ d rest', c = '\\' → rest = d :: rest' → False)
    (h : (splitClosingFrom opener closer quoting depth rest).map (consFirst c) = some parts) :
    c ≠ '\\' := by
  rintro rfl
  cases rest with
  | nil => simp [splitClosingFrom] at h
  | cons d rest => exact hc d rest rfl rfl

/-- The delimiter is found where it was, whatever stands behind it. -/
theorem splitClosingFrom_behind (hcloser : closer ≠ '\\') {quoting : Quoting} {depth : ℕ}
    {cs inside after : List Char} (behind : List Char)
    (h : splitClosingFrom opener closer quoting depth cs = some (inside, after)) :
    splitClosingFrom opener closer quoting depth (inside ++ closer :: behind) =
      some (inside, behind) := by
  fun_induction splitClosingFrom opener closer quoting depth cs generalizing inside with
  | case1 => cases h
  | case2 depth c rest ih =>
      obtain ⟨inside, rfl, hfound⟩ := eq_some_of_map_consFirst h
      rw [List.cons_append, splitClosingFrom, ih hfound]
      rfl
  | case3 depth c rest ih =>
      obtain ⟨inside, rfl, hfound⟩ := eq_some_of_map_consPair h
      rw [List.cons_append, List.cons_append, splitClosingFrom, ih hfound]
      rfl
  | case4 depth c rest hc ih =>
      obtain ⟨inside, rfl, hfound⟩ := eq_some_of_map_consFirst h
      rw [List.cons_append, splitClosingFrom_double_cons (ne_backslash_of_map hc h), ih hfound]
      rfl
  | case5 depth c rest ih =>
      obtain ⟨inside, rfl, hfound⟩ := eq_some_of_map_consPair h
      rw [List.cons_append, List.cons_append, splitClosingFrom, ih hfound]
      rfl
  | case6 depth rest hc ih =>
      obtain ⟨inside, rfl, hfound⟩ := eq_some_of_map_consFirst h
      rw [List.cons_append, splitClosingFrom_bare_cons (by decide), if_pos rfl, ih hfound]
      rfl
  | case7 depth rest hc hsingle ih =>
      obtain ⟨inside, rfl, hfound⟩ := eq_some_of_map_consFirst h
      rw [List.cons_append, splitClosingFrom_bare_cons (by decide), if_neg hsingle, if_pos rfl,
        ih hfound]
      rfl
  | case8 depth rest hc hsingle hdouble ih =>
      obtain ⟨inside, rfl, hfound⟩ := eq_some_of_map_consFirst h
      rw [List.cons_append, splitClosingFrom_bare_cons (ne_backslash_of_map hc h), if_neg hsingle,
        if_neg hdouble, if_pos rfl, ih hfound]
      rfl
  | case9 rest hc hsingle hdouble hopener =>
      obtain ⟨rfl, rfl⟩ := Prod.mk.inj (Option.some.inj h)
      rw [List.nil_append, splitClosingFrom_bare_cons hcloser, if_neg hsingle, if_neg hdouble,
        if_neg hopener, if_pos rfl]
  | case10 rest hc depth hsingle hdouble hopener ih =>
      obtain ⟨inside, rfl, hfound⟩ := eq_some_of_map_consFirst h
      rw [List.cons_append, splitClosingFrom_bare_cons hcloser, if_neg hsingle, if_neg hdouble,
        if_neg hopener, if_pos rfl]
      dsimp only
      rw [ih hfound]
      rfl
  | case11 depth c rest hc hsingle hdouble hopener hcloser ih =>
      obtain ⟨inside, rfl, hfound⟩ := eq_some_of_map_consFirst h
      rw [List.cons_append, splitClosingFrom_bare_cons (ne_backslash_of_map hc h), if_neg hsingle,
        if_neg hdouble, if_neg hopener, if_neg hcloser, ih hfound]
      rfl

/-- Text behind the closing delimiter has no influence on where it is found. -/
theorem splitClosing?_append (hcloser : closer ≠ '\\') {cs inside after : List Char}
    (more : List Char) (h : splitClosing? opener closer cs = some (inside, after)) :
    splitClosing? opener closer (cs ++ more) = some (inside, after ++ more) := by
  rw [eq_append_of_splitClosing? h, List.append_assoc, List.cons_append]
  exact splitClosingFrom_behind hcloser (after ++ more) h

variable (opener closer) in
/-- The delimiter behind the text is the one that closes it. -/
def Closes (text : List Char) : Prop :=
  splitClosing? opener closer (text ++ [closer]) = some (text, [])

instance (text : List Char) : Decidable (Closes opener closer text) :=
  inferInstanceAs (Decidable (_ = _))

theorem Closes.splitClosing?_eq {text : List Char} (h : Closes opener closer text)
    (hcloser : closer ≠ '\\') (after : List Char) :
    splitClosing? opener closer (text ++ closer :: after) = some (text, after) := by
  have happend := splitClosing?_append hcloser after h
  rwa [List.append_assoc, List.singleton_append, List.nil_append] at happend

/-- What stands in front of a closing delimiter is closed by it. -/
theorem closes_of_splitClosing? (hcloser : closer ≠ '\\') {cs inside after : List Char}
    (h : splitClosing? opener closer cs = some (inside, after)) : Closes opener closer inside :=
  splitClosingFrom_behind hcloser [] h

/-! ### Texts that are passed over -/

/-- Puts a list in front of the first part of a split. -/
def appendFirst {α : Type} (front : List α) (parts : List α × List α) : List α × List α :=
  (front ++ parts.1, parts.2)

theorem appendFirst_nil {α : Type} : appendFirst ([] : List α) = id := rfl

theorem appendFirst_append {α : Type} (front front' : List α) :
    appendFirst (front ++ front') = appendFirst front ∘ appendFirst front' := by
  funext parts
  simp [appendFirst]

variable (opener closer) in
/-- Outside quotes, the search for the closing delimiter goes on behind the text as it came. -/
def Passes (text : List Char) : Prop :=
  ∀ (depth : ℕ) (rest : List Char),
    splitClosingFrom opener closer .bare depth (text ++ rest) =
      (splitClosingFrom opener closer .bare depth rest).map (appendFirst text)

theorem Passes.nil : Passes opener closer [] := by
  intro depth rest
  rw [appendFirst_nil, Option.map_id_fun]
  rfl

theorem Passes.append {text text' : List Char} (h : Passes opener closer text)
    (h' : Passes opener closer text') : Passes opener closer (text ++ text') := by
  intro depth rest
  rw [List.append_assoc, h, h', Option.map_map, appendFirst_append]

/-- A character without a meaning of its own is passed over. -/
theorem passes_singleton {c : Char} (hslash : c ≠ '\\') (hsingle : c ≠ '\'') (hdouble : c ≠ '"')
    (hopener : c ≠ opener) (hcloser : c ≠ closer) : Passes opener closer [c] := by
  intro depth rest
  rw [List.singleton_append, splitClosingFrom_bare_cons hslash, if_neg hsingle, if_neg hdouble,
    if_neg hopener, if_neg hcloser]
  rfl

theorem Passes.of_forall {text : List Char} (h : ∀ c ∈ text, Passes opener closer [c]) :
    Passes opener closer text := by
  induction text with
  | nil => exact .nil
  | cons c text ih =>
      have hc := h c List.mem_cons_self
      exact hc.append (ih fun d hd => h d (List.mem_cons_of_mem c hd))

/-- A text that is passed over is still passed over between the delimiters. -/
theorem Passes.enclose {text : List Char} (h : Passes opener closer text) (hne : closer ≠ opener)
    (ho : opener ≠ '\\' ∧ opener ≠ '\'' ∧ opener ≠ '"')
    (hc : closer ≠ '\\' ∧ closer ≠ '\'' ∧ closer ≠ '"') :
    Passes opener closer (opener :: (text ++ [closer])) := by
  intro depth rest
  rw [List.cons_append, splitClosingFrom_bare_cons ho.1, if_neg ho.2.1, if_neg ho.2.2, if_pos rfl]
  rw [List.append_assoc, h, List.singleton_append, splitClosingFrom_bare_cons hc.1,
    if_neg hc.2.1, if_neg hc.2.2, if_neg hne, if_pos rfl]
  rw [Option.map_map, Option.map_map]
  refine congrArg (Option.map · _) (funext fun parts => ?_)
  simp [appendFirst, consFirst]

/-- The delimiter that closes a text which is passed over stands right behind it. -/
theorem Passes.closes {text : List Char} (h : Passes opener closer text) (hne : closer ≠ opener)
    (hc : closer ≠ '\\' ∧ closer ≠ '\'' ∧ closer ≠ '"') : Closes opener closer text := by
  rw [Closes, splitClosing?, h, splitClosingFrom_bare_cons hc.1, if_neg hc.2.1, if_neg hc.2.2,
    if_neg hne, if_pos rfl]
  simp [appendFirst]

theorem Passes.closes_braces {text : List Char} (h : Passes '\x7b' '\x7d' text) :
    Closes '\x7b' '\x7d' text :=
  h.closes (by decide) (by decide)

theorem Passes.closes_brackets {text : List Char} (h : Passes '[' ']' text) : Closes '[' ']' text :=
  h.closes (by decide) (by decide)

end ShellExpansion.Lexical
