/-! # Glob patterns

A pattern is a sequence of elements (`Glob.elements`): a star for any stretch of text, a question
mark for one character, a bracket expression for one character of a set, and characters that
stand for themselves, a backslash taking away the meaning of the character behind it. A bracket
that is never closed stands for itself. The set of a bracket expression is the union of its
classes, ranges and characters, or the complement of that union. -/

namespace ShellExpansion.Glob

/-! ### Character classes -/

/-- The named classes of ASCII characters. -/
inductive CharClass
  | alpha | digit | alnum | upper | lower | space | blank | punct | graph | print | cntrl
  | xdigit | word
deriving DecidableEq, Repr

namespace CharClass

/-- The class of a name. -/
def ofName? (name : String) : Option CharClass :=
  match name with
  | "alpha" => some alpha
  | "digit" => some digit
  | "alnum" => some alnum
  | "upper" => some upper
  | "lower" => some lower
  | "space" => some space
  | "blank" => some blank
  | "punct" => some punct
  | "graph" => some graph
  | "print" => some print
  | "cntrl" => some cntrl
  | "xdigit" => some xdigit
  | "word" => some word
  | _ => none

/-- The character lies between the two, both included. -/
def between (low high : Char) (c : Char) : Bool := low ≤ c && c ≤ high

/-- The character belongs to the class. -/
def contains : CharClass → Char → Bool
  | alpha, c => c.isAlpha
  | digit, c => c.isDigit
  | alnum, c => c.isAlphanum
  | upper, c => c.isUpper
  | lower, c => c.isLower
  | space, c => c == ' ' || between '\t' '\r' c
  | blank, c => c == ' ' || c == '\t'
  | punct, c => between '!' '~' c && !c.isAlphanum
  | graph, c => between '!' '~' c
  | print, c => between ' ' '~' c
  | cntrl, c => c.toNat < 32 || c.toNat = 127
  | xdigit, c => c.isDigit || between 'a' 'f' c || between 'A' 'F' c
  | word, c => c.isAlphanum || c == '_'

end CharClass

/-! ### Elements -/

/-- A part of the set of a bracket expression. -/
inductive SetItem
  | ofClass (cls : CharClass)
  /-- All characters between the two; none when they stand in descending order. -/
  | range (low high : Char)
  | char (c : Char)
deriving DecidableEq, Repr

/-- The character belongs to this part of the set. -/
def SetItem.contains : SetItem → Char → Bool
  | ofClass cls, c => cls.contains c
  | range low high, c => CharClass.between low high c
  | char d, c => d == c

/-- An element of a pattern. -/
inductive Element
  /-- Any stretch of text, also an empty one. -/
  | star
  /-- Any one character. -/
  | any
  | literal (c : Char)
  /-- One character of the set, or one outside it when `negated`. -/
  | set (negated : Bool) (items : List SetItem)
deriving DecidableEq, Repr

namespace Element

/-- The element takes the single character `c`; a star counts as taking none. -/
def accepts : Element → Char → Bool
  | star, _ => false
  | any, _ => true
  | literal d, c => d == c
  | set negated items, c => items.any (·.contains c) != negated

end Element

/-! ### Reading patterns -/

/-- The text before the first `:]` and the text after it. -/
def splitClassEnd? : List Char → Option (List Char × List Char)
  | [] => none
  | ':' :: ']' :: rest => some ([], rest)
  | c :: rest => (splitClassEnd? rest).map fun parts => (c :: parts.1, parts.2)

/-- The known class, written `[:name:]`, that the text begins with, its text, and the rest. -/
def class? : List Char → Option (CharClass × List Char × List Char)
  | '[' :: ':' :: rest =>
    match splitClassEnd? rest with
    | some (name, after) =>
      (CharClass.ofName? (String.ofList name)).map fun cls =>
        (cls, '[' :: ':' :: name ++ [':', ']'], after)
    | none => none
  | _ => none

theorem eq_append_of_splitClassEnd? {cs name after : List Char}
    (h : splitClassEnd? cs = some (name, after)) : cs = name ++ ':' :: ']' :: after := by
  fun_induction splitClassEnd? cs generalizing name with
  | case1 => simp at h
  | case2 rest =>
    obtain ⟨rfl, rfl⟩ := Prod.mk.inj (Option.some.inj h)
    rfl
  | case3 c rest _ ih =>
    obtain ⟨parts, hp, he⟩ := Option.map_eq_some_iff.mp h
    obtain ⟨rfl, rfl⟩ := Prod.mk.inj he
    rw [ih hp, List.cons_append]

theorem eq_append_of_class? {cs text after : List Char} {cls : CharClass}
    (h : class? cs = some (cls, text, after)) : cs = text ++ after := by
  unfold class? at h
  split at h
  · split at h
    · next hs =>
      rw [eq_append_of_splitClassEnd? hs]
      simp only [Option.map_eq_some_iff, Prod.mk.injEq] at h
      obtain ⟨_, _, _, rfl, rfl⟩ := h
      simp
    · simp at h
  · simp at h

theorem length_lt_of_class? {cs text after : List Char} {cls : CharClass}
    (h : class? cs = some (cls, text, after)) : after.length < cs.length := by
  unfold class? at h
  split at h
  · split at h
    · next hs =>
      simp only [Option.map_eq_some_iff, Prod.mk.injEq] at h
      obtain ⟨_, _, _, _, rfl⟩ := h
      rw [eq_append_of_splitClassEnd? hs]
      simp
      omega
    · simp at h
  · simp at h

/-- The text up to the bracket that closes a bracket expression, past its first character, and
the text after it. Classes and backslash pairs are skipped whole. -/
def splitBracket? (cs : List Char) : Option (List Char × List Char) :=
  match _h : class? cs with
  | some (_, text, after) => (splitBracket? after).map fun parts => (text ++ parts.1, parts.2)
  | none => match cs with
    | [] => none
    | c :: rest =>
      if c = ']' then some ([], rest)
      else if c = '\\' then match rest with
        | [] => none
        | d :: rest => (splitBracket? rest).map fun parts => (c :: d :: parts.1, parts.2)
      else (splitBracket? rest).map fun parts => (c :: parts.1, parts.2)
termination_by cs.length
decreasing_by
  · exact length_lt_of_class? _h
  all_goals
    simp only [List.length_cons]
    omega

/-- A closing bracket at the very start of a set is a member of it. -/
def splitSet? : List Char → Option (List Char × List Char)
  | ']' :: rest => (splitBracket? rest).map fun parts => (']' :: parts.1, parts.2)
  | cs => splitBracket? cs

/-- Splits behind the opening bracket of a bracket expression: whether its set is negated, the
text of the set, and the text after the closing bracket. -/
def bracket? : List Char → Option (Bool × List Char × List Char)
  | '!' :: rest => (splitSet? rest).map fun parts => (true, parts)
  | '^' :: rest => (splitSet? rest).map fun parts => (true, parts)
  | cs => (splitSet? cs).map fun parts => (false, parts)

theorem length_lt_of_splitBracket? {cs inside after : List Char}
    (h : splitBracket? cs = some (inside, after)) : after.length < cs.length := by
  fun_induction splitBracket? cs generalizing inside with
  | case1 cs cls text rest hc ih =>
    have := length_lt_of_class? hc
    simp only [Option.map_eq_some_iff, Prod.exists, Prod.mk.injEq] at h
    obtain ⟨_, _, h, _, rfl⟩ := h
    have := ih h
    omega
  | case2 => simp at h
  | case3 => simp_all
  | case4 => simp at h
  | case5 c d rest =>
    simp only [Option.map_eq_some_iff, Prod.exists, Prod.mk.injEq] at h
    obtain ⟨_, _, h, _, rfl⟩ := h
    grind
  | case6 c rest _ _ _ ih =>
    simp only [Option.map_eq_some_iff, Prod.exists, Prod.mk.injEq] at h
    obtain ⟨_, _, h, _, rfl⟩ := h
    have := ih h
    simp only [List.length_cons]
    omega

theorem length_lt_of_bracket? {cs inside after : List Char} {negated : Bool}
    (h : bracket? cs = some (negated, inside, after)) : after.length < cs.length := by
  have set {cs inside after} (h : splitSet? cs = some (inside, after)) :
      after.length < cs.length := by
    unfold splitSet? at h
    split at h
    · simp only [Option.map_eq_some_iff, Prod.exists, Prod.mk.injEq] at h
      obtain ⟨_, _, h, _, rfl⟩ := h
      have := length_lt_of_splitBracket? h
      simp
      omega
    · exact length_lt_of_splitBracket? h
  unfold bracket? at h
  split at h <;>
    simp only [Option.map_eq_some_iff, Prod.exists, Prod.mk.injEq] at h <;>
    obtain ⟨_, _, h, _, _, rfl⟩ := h <;> have := set h <;> grind

/-- A member of a set that is written as one character or as a backslash pair, and the rest. -/
def setChar? : List Char → Option (Char × List Char)
  | [] => none
  | '\\' :: c :: rest => some (c, rest)
  | c :: rest => some (c, rest)

theorem length_lt_of_setChar? {cs rest : List Char} {c : Char}
    (h : setChar? cs = some (c, rest)) : rest.length < cs.length := by
  unfold setChar? at h
  split at h
  · simp at h
  · obtain ⟨_, rfl⟩ := Prod.mk.inj (Option.some.inj h)
    simp only [List.length_cons]
    omega
  · obtain ⟨_, rfl⟩ := Prod.mk.inj (Option.some.inj h)
    exact Nat.lt_succ_self _

/-- The upper end of a range, behind the hyphen that the text begins with, and the rest. -/
def rangeEnd? : List Char → Option (Char × List Char)
  | '-' :: rest => setChar? rest
  | _ => none

theorem length_lt_of_rangeEnd? {cs rest : List Char} {c : Char}
    (h : rangeEnd? cs = some (c, rest)) : rest.length < cs.length := by
  unfold rangeEnd? at h
  split at h
  · have := length_lt_of_setChar? h
    simp only [List.length_cons]
    omega
  · simp at h

/-- The parts of a set. A hyphen between two members makes a range; at an edge it is a member. -/
def setItems (cs : List Char) : List SetItem :=
  match _h : class? cs with
  | some (cls, _, after) => .ofClass cls :: setItems after
  | none => match _hlow : setChar? cs with
    | none => []
    | some (low, rest) => match _hhigh : rangeEnd? rest with
      | some (high, after) => .range low high :: setItems after
      | none => .char low :: setItems rest
termination_by cs.length
decreasing_by
  · exact length_lt_of_class? _h
  · exact Nat.lt_trans (length_lt_of_rangeEnd? _hhigh) (length_lt_of_setChar? _hlow)
  · exact length_lt_of_setChar? _hlow

/-- The elements of a pattern. -/
def elements (cs : List Char) : List Element :=
  match cs with
  | [] => []
  | '*' :: rest => .star :: elements rest
  | '?' :: rest => .any :: elements rest
  | '\\' :: c :: rest => .literal c :: elements rest
  | '[' :: rest => match _h : bracket? rest with
    | some (negated, inside, after) => .set negated (setItems inside) :: elements after
    | none => .literal '[' :: elements rest
  | c :: rest => .literal c :: elements rest
termination_by cs.length
decreasing_by
  all_goals simp only [List.length_cons]
  · omega
  · omega
  · omega
  · have := length_lt_of_bracket? _h
    omega
  · omega
  · omega

/-- A character with a meaning of its own in patterns. -/
def isSpecial (c : Char) : Bool := c == '*' || c == '?' || c == '[' || c == ']' || c == '\\'

/-- The pattern that matches the text and nothing else. -/
def escape (text : String) : String :=
  String.ofList (text.toList.flatMap fun c => if isSpecial c then ['\\', c] else [c])

end ShellExpansion.Glob
