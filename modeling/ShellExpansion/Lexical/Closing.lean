/-! # Closing delimiters

`splitClosing?` finds the delimiter that closes a bracket opened just before the text, skipping
nested pairs, quoted sections and backslash pairs, and gives the text inside and the text after
it. Nothing behind the closing delimiter has an influence on where it is found. The parts make up
the text again (`eq_append_of_splitClosing?`). -/

namespace ShellExpansion.Lexical

/-- The quotes that a position stands in. -/
inductive Quoting
  | bare
  | single
  | double
deriving DecidableEq, Repr

/-- Puts a character in front of the first part of a split. -/
def consFirst (c : Char) (parts : List Char × List Char) : List Char × List Char :=
  (c :: parts.1, parts.2)

/-- Splits at the closing delimiter from within `depth` nested pairs and the given quotes. -/
def splitClosingFrom (opener closer : Char) :
    Quoting → Nat → List Char → Option (List Char × List Char)
  | _, _, [] => none
  | .single, depth, c :: rest =>
    (splitClosingFrom opener closer (if c = '\'' then .bare else .single) depth rest).map
      (consFirst c)
  | .double, depth, '\\' :: c :: rest =>
    (splitClosingFrom opener closer .double depth rest).map (consFirst '\\' ∘ consFirst c)
  | .double, depth, c :: rest =>
    (splitClosingFrom opener closer (if c = '"' then .bare else .double) depth rest).map
      (consFirst c)
  | .bare, depth, '\\' :: c :: rest =>
    (splitClosingFrom opener closer .bare depth rest).map (consFirst '\\' ∘ consFirst c)
  | .bare, depth, c :: rest =>
    if c = '\'' then (splitClosingFrom opener closer .single depth rest).map (consFirst c)
    else if c = '"' then (splitClosingFrom opener closer .double depth rest).map (consFirst c)
    else if c = opener then
      (splitClosingFrom opener closer .bare (depth + 1) rest).map (consFirst c)
    else if c = closer then
      match depth with
      | 0 => some ([], rest)
      | depth + 1 => (splitClosingFrom opener closer .bare depth rest).map (consFirst c)
    else (splitClosingFrom opener closer .bare depth rest).map (consFirst c)

/-- The text before and the text after the delimiter that closes the bracket opened just before
the given text. -/
def splitClosing? (opener closer : Char) (cs : List Char) : Option (List Char × List Char) :=
  splitClosingFrom opener closer .bare 0 cs

theorem eq_append_of_map_consFirst {c closer : Char} {cs inside after : List Char}
    {found : Option (List Char × List Char)} (h : found.map (consFirst c) = some (inside, after))
    (ih : ∀ {inside}, found = some (inside, after) → cs = inside ++ closer :: after) :
    c :: cs = inside ++ closer :: after := by
  obtain ⟨parts, hp, he⟩ := Option.map_eq_some_iff.mp h
  obtain ⟨rfl, rfl⟩ := Prod.mk.inj he
  rw [ih hp, List.cons_append]

theorem eq_append_of_splitClosingFrom {opener closer : Char} {quoting : Quoting} {depth : Nat}
    {cs inside after : List Char}
    (h : splitClosingFrom opener closer quoting depth cs = some (inside, after)) :
    cs = inside ++ closer :: after := by
  fun_induction splitClosingFrom opener closer quoting depth cs generalizing inside with
  | case1 => simp at h
  | case2 depth c rest ih => exact eq_append_of_map_consFirst h ih
  | case3 depth c rest ih =>
    rw [← Option.map_map] at h
    exact eq_append_of_map_consFirst h fun h => eq_append_of_map_consFirst h ih
  | case4 depth c rest _ ih => exact eq_append_of_map_consFirst h ih
  | case5 depth c rest ih =>
    rw [← Option.map_map] at h
    exact eq_append_of_map_consFirst h fun h => eq_append_of_map_consFirst h ih
  | case6 depth rest _ ih => exact eq_append_of_map_consFirst h ih
  | case7 depth rest _ _ ih => exact eq_append_of_map_consFirst h ih
  | case8 depth rest _ _ _ ih => exact eq_append_of_map_consFirst h ih
  | case9 rest =>
    obtain ⟨rfl, rfl⟩ := Prod.mk.inj (Option.some.inj h)
    rfl
  | case10 rest depth _ _ _ _ ih => exact eq_append_of_map_consFirst h ih
  | case11 depth c rest _ _ _ _ _ ih => exact eq_append_of_map_consFirst h ih

theorem eq_append_of_splitClosing? {opener closer : Char} {cs inside after : List Char}
    (h : splitClosing? opener closer cs = some (inside, after)) :
    cs = inside ++ closer :: after :=
  eq_append_of_splitClosingFrom h

theorem length_lt_of_splitClosing? {opener closer : Char} {cs inside after : List Char}
    (h : splitClosing? opener closer cs = some (inside, after)) : after.length < cs.length := by
  rw [eq_append_of_splitClosing? h, List.length_append, List.length_cons]
  omega

end ShellExpansion.Lexical
