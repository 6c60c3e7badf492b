import ShellExpansion.Proofs.Lexical.Segment
import ShellExpansion.Word

/-! # Pieces that are closed

The end of a piece of a word is looked for from its start on, in all of the text behind it.  Where
the piece is closed, the scanner that looks for its end stops there, and what follows the piece has
no influence on it: for quotes (`splitSingle_append`, `splitDouble_append`), braces
(`dollar_braced`) and double parentheses (`dollar_arithmetic`).  A text that is made of such pieces
(`IsWhole`) is therefore cut into the same pieces whatever follows it (`piecesList_append`). -/

namespace ShellExpansion.Word

open Lexical

/-! ### Quotes -/

theorem splitSingle_append {inside : List Char} (hinside : '\'' ∉ inside) (rest : List Char) :
    splitSingle (inside ++ '\'' :: rest) = (inside, rest) := by
  induction inside with
  | nil => rfl
  | cons c inside ih =>
      have hc : c ≠ '\'' := (List.ne_of_not_mem_cons hinside).symm
      rw [List.cons_append, splitSingle, if_neg hc, ih (List.not_mem_of_not_mem_cons hinside)]
      rfl

theorem splitDouble_append {inside : List Char} (hinside : DoubleQuoted inside)
    (rest : List Char) : splitDouble (inside ++ '"' :: rest) = (inside, rest) := by
  induction hinside with
  | nil => rfl
  | char hquote hslash _ ih =>
      rw [List.cons_append, splitDouble, if_neg hquote, ih]
      · rfl
      · exact fun _ _ h => absurd h hslash
  | pair c _ ih =>
      rw [List.cons_append, List.cons_append, splitDouble, ih]
      rfl

/-- A section that the scanner of double quotes finds closed at the end of its text holds
backslash pairs, and characters other than the backslash and the quote. -/
theorem doubleQuoted_of_splitDouble {inside : List Char}
    (h : splitDouble (inside ++ ['"']) = (inside, [])) : DoubleQuoted inside := by
  generalize htext : inside ++ ['"'] = text at h
  fun_induction splitDouble text generalizing inside with
  | case1 => simp at htext
  | case2 c rest ih =>
      obtain ⟨rfl, hrest⟩ := Prod.mk.inj h
      have hback : (splitDouble rest).1 ++ ['"'] = rest :=
        (List.cons.inj (List.cons.inj htext).2).2
      exact .pair c (ih hback (Prod.ext rfl hrest))
  | case3 rest =>
      obtain ⟨rfl, -⟩ := Prod.mk.inj h
      exact .nil
  | case4 c rest hescape hquote ih =>
      obtain ⟨rfl, hrest⟩ := Prod.mk.inj h
      have hback : (splitDouble rest).1 ++ ['"'] = rest := (List.cons.inj htext).2
      -- a backslash would have taken the quote at the end with it
      have hslash : c ≠ '\\' := by
        rintro rfl
        cases rest with
        | nil => simp at hback
        | cons d rest => exact hescape d rest rfl rfl
      exact .char hquote hslash (ih hback (Prod.ext rfl hrest))

/-! ### Forms of the dollar sign -/

theorem dollar_braced {inside : List Char} (h : Closes '\x7b' '\x7d' inside) (rest : List Char) :
    dollar ('\x7b' :: (inside ++ '\x7d' :: rest)) = (.braced (String.ofList inside), rest) := by
  simp only [dollar, h.splitClosing?_eq (by decide)]

theorem dollar_arithmetic {inside : List Char} (h : Closes '(' ')' inside) (rest : List Char) :
    dollar ('(' :: '(' :: (inside ++ ')' :: ')' :: rest)) =
      (.arithmetic (String.ofList inside), rest) := by
  simp only [dollar, h.splitClosing?_eq (by decide)]

/-! ### One piece at a time -/

theorem piecesList_nil : piecesList [] = [] := by rw [piecesList]

theorem piecesList_bare {c : Char} (hc : IsBare c) (rest : List Char) :
    piecesList (c :: rest) = .char c :: piecesList rest := by
  obtain ⟨hslash, hsingle, hdouble, hdollar⟩ := hc
  rw [piecesList]
  · exact hsingle
  · exact hdouble
  · exact fun _ _ h => absurd h hslash
  · exact hdollar

theorem piecesList_dollar (rest : List Char) :
    piecesList ('$' :: rest) = .dollar (dollar rest).1 :: piecesList (dollar rest).2 := by
  rw [piecesList]

theorem piecesList_single {inside : List Char} (hinside : '\'' ∉ inside) (rest : List Char) :
    piecesList ('\'' :: (inside ++ '\'' :: rest)) =
      .single (String.ofList inside) :: piecesList rest := by
  rw [piecesList, splitSingle_append hinside]

theorem piecesList_double {inside : List Char} (hinside : DoubleQuoted inside)
    (rest : List Char) :
    piecesList ('"' :: (inside ++ '"' :: rest)) = .double (atoms inside) :: piecesList rest := by
  rw [piecesList, splitDouble_append hinside]

/-! ### Whole pieces -/

/-- The text is made of whole pieces: characters that begin nothing, backslash pairs, and sections
that their scanners find closed. -/
inductive IsWhole : List Char → Prop
  | nil : IsWhole []
  | bare {c : Char} {rest : List Char} (hc : IsBare c) (h : IsWhole rest) : IsWhole (c :: rest)
  | escaped (c : Char) {rest : List Char} (h : IsWhole rest) : IsWhole ('\\' :: c :: rest)
  | single {inside rest : List Char} (hinside : '\'' ∉ inside) (h : IsWhole rest) :
      IsWhole ('\'' :: (inside ++ '\'' :: rest))
  | double {inside rest : List Char} (hcloses : splitDouble (inside ++ ['"']) = (inside, []))
      (h : IsWhole rest) : IsWhole ('"' :: (inside ++ '"' :: rest))
  | braced {inside rest : List Char} (hcloses : Closes '\x7b' '\x7d' inside) (h : IsWhole rest) :
      IsWhole ('$' :: '\x7b' :: (inside ++ '\x7d' :: rest))
  | arithmetic {inside rest : List Char} (hcloses : Closes '(' ')' inside) (h : IsWhole rest) :
      IsWhole ('$' :: '(' :: '(' :: (inside ++ ')' :: ')' :: rest))

/-- **Whole pieces stay the same pieces** whatever follows them. -/
theorem piecesList_append {front : List Char} (h : IsWhole front) (back : List Char) :
    piecesList (front ++ back) = piecesList front ++ piecesList back := by
  induction h with
  | nil => rw [piecesList_nil, List.nil_append, List.nil_append]
  | bare hc _ ih =>
      rw [List.cons_append, piecesList_bare hc, piecesList_bare hc, ih]
      rfl
  | escaped c _ ih =>
      rw [List.cons_append, List.cons_append, piecesList, piecesList, ih]
      rfl
  | single hinside _ ih =>
      rw [List.cons_append, List.append_assoc, List.cons_append, piecesList_single hinside,
        piecesList_single hinside, ih]
      rfl
  | double hcloses _ ih =>
      have hinside := doubleQuoted_of_splitDouble hcloses
      rw [List.cons_append, List.append_assoc, List.cons_append, piecesList_double hinside,
        piecesList_double hinside, ih]
      rfl
  | braced hcloses _ ih =>
      rw [List.cons_append, List.cons_append, List.append_assoc, List.cons_append,
        piecesList_dollar, piecesList_dollar, dollar_braced hcloses, dollar_braced hcloses, ih]
      rfl
  | arithmetic hcloses _ ih =>
      rw [List.cons_append, List.cons_append, List.cons_append, List.append_assoc,
        List.cons_append, List.cons_append, piecesList_dollar, piecesList_dollar,
        dollar_arithmetic hcloses, dollar_arithmetic hcloses, ih]
      rfl

end ShellExpansion.Word
