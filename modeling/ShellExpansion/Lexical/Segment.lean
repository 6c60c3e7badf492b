import ShellExpansion.Lexical.Closing

/-! # Segments of a raw word

A raw word is read as a sequence of segments: *shielded* stretches, in which no character has a
meaning for word splitting or brace expansion (a backslash pair, a quoted section, a parameter
expansion in braces), and single plain characters. A stretch that is never closed reaches to the
end of the text. `segments` cuts a text into its segments, and their texts joined are the text
(`flatten_segments`). -/

namespace ShellExpansion.Lexical

/-- Splits after the first single quote, or at the end of the text. -/
def pastSingleQuote : List Char → List Char × List Char
  | [] => ([], [])
  | c :: rest => if c = '\'' then ([c], rest) else consFirst c (pastSingleQuote rest)

/-- Splits after the first double quote that no backslash precedes, or at the end of the text. -/
def pastDoubleQuote : List Char → List Char × List Char
  | [] => ([], [])
  | '\\' :: c :: rest => consFirst '\\' (consFirst c (pastDoubleQuote rest))
  | c :: rest => if c = '"' then ([c], rest) else consFirst c (pastDoubleQuote rest)

/-- Splits after the delimiter that closes the bracket opened just before the text, or at the end
of the text. -/
def pastClosing (opener closer : Char) (cs : List Char) : List Char × List Char :=
  match splitClosing? opener closer cs with
  | some (inside, after) => (inside ++ [closer], after)
  | none => (cs, [])

/-- The shielded stretch that the text begins with, if it begins with one, and the rest. -/
def shielded? : List Char → Option (List Char × List Char)
  | '\\' :: c :: rest => some (['\\', c], rest)
  | '\'' :: rest => some (consFirst '\'' (pastSingleQuote rest))
  | '"' :: rest => some (consFirst '"' (pastDoubleQuote rest))
  | '$' :: '\x7b' :: rest =>
    some (consFirst '$' (consFirst '\x7b' (pastClosing '\x7b' '\x7d' rest)))
  | _ => none

/-- A stretch of a raw word. -/
inductive Segment
  /-- Characters that stand for themselves. -/
  | shield (text : List Char)
  /-- One character outside quotes, escapes and expansions. -/
  | plain (c : Char)
deriving DecidableEq, Repr

namespace Segment

/-- The characters of a segment. -/
def text : Segment → List Char
  | shield text => text
  | plain c => [c]

/-- The segment is this plain character. -/
def isPlain (c : Char) : Segment → Bool
  | shield _ => false
  | plain d => d == c

end Segment

/-- The characters of a sequence of segments. -/
def Segment.join (segments : List Segment) : List Char := segments.flatMap Segment.text

theorem pastSingleQuote_append (cs : List Char) :
    (pastSingleQuote cs).1 ++ (pastSingleQuote cs).2 = cs := by
  fun_induction pastSingleQuote cs <;> simp_all [consFirst]

theorem pastDoubleQuote_append (cs : List Char) :
    (pastDoubleQuote cs).1 ++ (pastDoubleQuote cs).2 = cs := by
  fun_induction pastDoubleQuote cs <;> simp_all [consFirst]

theorem pastClosing_append (opener closer : Char) (cs : List Char) :
    (pastClosing opener closer cs).1 ++ (pastClosing opener closer cs).2 = cs := by
  unfold pastClosing
  split
  · next h => simp [eq_append_of_splitClosing? h]
  · simp

theorem eq_append_of_shielded? {cs first rest : List Char}
    (h : shielded? cs = some (first, rest)) : cs = first ++ rest := by
  unfold shielded? at h
  split at h <;> simp only [Option.some.injEq, Prod.mk.injEq, reduceCtorEq, consFirst] at h
  · simp [← h.1, ← h.2]
  · simp [← h.1, ← h.2, pastSingleQuote_append]
  · simp [← h.1, ← h.2, pastDoubleQuote_append]
  · simp [← h.1, ← h.2, pastClosing_append]

theorem ne_nil_of_shielded? {cs first rest : List Char}
    (h : shielded? cs = some (first, rest)) : first ≠ [] := by
  unfold shielded? at h
  split at h <;> simp only [Option.some.injEq, Prod.mk.injEq, reduceCtorEq, consFirst] at h <;>
    simp [← h.1]

theorem length_lt_of_shielded? {cs first rest : List Char}
    (h : shielded? cs = some (first, rest)) : rest.length < cs.length := by
  have := List.length_pos_iff.mpr (ne_nil_of_shielded? h)
  rw [eq_append_of_shielded? h, List.length_append]
  omega

/-- The segments of a text. -/
def segments (cs : List Char) : List Segment :=
  match _h : shielded? cs with
  | some (first, rest) => .shield first :: segments rest
  | none => match cs with
    | [] => []
    | c :: rest => .plain c :: segments rest
termination_by cs.length
decreasing_by
  · exact length_lt_of_shielded? _h
  · simp

theorem flatten_segments (cs : List Char) : Segment.join (segments cs) = cs := by
  fun_induction segments cs with
  | case1 cs first rest h ih =>
    simp only [Segment.join, List.flatMap_cons, Segment.text] at ih ⊢
    rw [ih, ← eq_append_of_shielded? h]
  | case2 => rfl
  | case3 c rest _ ih => simpa [Segment.join, Segment.text] using ih

end ShellExpansion.Lexical
