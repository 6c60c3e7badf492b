import ShellExpansion.Glob.Pattern
import ShellExpansion.Proofs.Text.Alphabet

/-! # The grammar of patterns

What patterns mean, said on their texts alone and without an algorithm.

* `SetText text body after`: behind the start of a set, the text goes on with the `body` of the
  set, the bracket that closes it, and `after`; a class and a backslash pair belong to the body
  whole.  `Bracket` adds the sign that negates a set and the closing bracket that comes first in
  it, which is a member.
* `Parts body items`: the classes, ranges and characters of a body.  The set is their union, and
  what each of them has is said by `SetItem.Has`; a class is a list of ranges.
* `Matches pattern text`: the text can be cut into pieces, one for each element of the pattern.

The readers of `Pattern.lean` agree with the grammar: `bracket?` finds exactly the brackets
(`bracket?_eq_some_iff`), and `setItems` gives the one reading of a body that the grammar allows
(`setItems_eq_iff`), whose items are tested for what they have (`SetItem.contains_iff`).  The body is
walked twice, once to find its end and once to find its parts; both walks meet the grammar on their
own. -/

namespace ShellExpansion.Glob

/-! ### Classes -/

namespace CharClass

/-- The name of a class. -/
def name : CharClass → String
  | alpha => "alpha"
  | digit => "digit"
  | alnum => "alnum"
  | upper => "upper"
  | lower => "lower"
  | space => "space"
  | blank => "blank"
  | punct => "punct"
  | graph => "graph"
  | print => "print"
  | cntrl => "cntrl"
  | xdigit => "xdigit"
  | word => "word"

/-- The class as it is written in a set. -/
def text (cls : CharClass) : List Char := '[' :: ':' :: cls.name.toList ++ [':', ']']

/-- The characters of a class, as ranges that include both ends. -/
def ranges : CharClass → List (Char × Char)
  | alpha => [('a', 'z'), ('A', 'Z')]
  | digit => [('0', '9')]
  | alnum => [('a', 'z'), ('A', 'Z'), ('0', '9')]
  | upper => [('A', 'Z')]
  | lower => [('a', 'z')]
  | space => [(' ', ' '), ('\t', '\r')]
  | blank => [(' ', ' '), ('\t', '\t')]
  | punct => [('!', '/'), (':', '@'), ('[', '\x60'), ('\x7b', '~')]
  | graph => [('!', '~')]
  | print => [(' ', '~')]
  | cntrl => [('\x00', '\x1f'), ('\x7f', '\x7f')]
  | xdigit => [('0', '9'), ('a', 'f'), ('A', 'F')]
  | word => [('a', 'z'), ('A', 'Z'), ('0', '9'), ('_', '_')]

theorem contains_iff {cls : CharClass} {c : Char} :
    cls.contains c = true ↔ ∃ range ∈ cls.ranges, range.1 ≤ c ∧ c ≤ range.2 := by
  have heq (d : Char) : c = d ↔ c.toNat = d.toNat :=
    ⟨congrArg Char.toNat, fun h => Char.ext (UInt32.toNat_inj.mp h)⟩
  -- Both sides are comparisons of the number of the character with fixed numbers.
  cases cls <;>
    simp only [contains, between, ranges, Text.isAlphanum_iff, Text.isAlpha_iff,
      Text.isUpper_iff_toNat, Text.isLower_iff_toNat, Char.isDigit_iff_toNat, Bool.or_eq_true,
      Bool.and_eq_true, Bool.not_eq_true', ← Bool.not_eq_true, decide_eq_true_eq, beq_iff_eq, heq,
      Char.le_def, UInt32.le_iff_toNat_le, List.mem_cons, List.not_mem_nil, or_false,
      exists_eq_or_imp, exists_eq_left, Char.toNat_val, Char.reduceToNat] <;>
    omega

theorem ofName?_eq_some_iff {s : String} {cls : CharClass} :
    ofName? s = some cls ↔ s = cls.name := by
  constructor
  · intro h
    unfold ofName? at h
    split at h
    case h_14 => cases h
    all_goals
      obtain rfl := Option.some.inj h
      rfl
  · rintro rfl
    cases cls <;> rfl

theorem splitClassEnd?_name (cls : CharClass) (after : List Char) :
    splitClassEnd? (cls.name.toList ++ ':' :: ']' :: after) = some (cls.name.toList, after) := by
  cases cls <;> rfl

end CharClass

/-- The text does not begin with a class. -/
def NoClass (text : List Char) : Prop := ∀ cls : CharClass, ¬ cls.text <+: text

theorem class?_text_append (cls : CharClass) (after : List Char) :
    class? (cls.text ++ after) = some (cls, cls.text, after) := by
  have e : cls.text ++ after = '[' :: ':' :: (cls.name.toList ++ ':' :: ']' :: after) := by
    simp [CharClass.text]
  have hn : CharClass.ofName? (String.ofList cls.name.toList) = some cls := by
    rw [CharClass.ofName?_eq_some_iff, String.ofList_toList]
  rw [e]
  simp only [class?, CharClass.splitClassEnd?_name, hn]
  rfl

theorem text_of_class? {cs text after : List Char} {cls : CharClass}
    (h : class? cs = some (cls, text, after)) : text = cls.text := by
  unfold class? at h
  split at h
  · split at h
    · next name rest hs =>
        obtain ⟨cls', hn, he⟩ := Option.map_eq_some_iff.mp h
        obtain ⟨rfl, rfl, rfl⟩ :
            cls' = cls ∧ '[' :: ':' :: name ++ [':', ']'] = text ∧ rest = after := by
          simpa using he
        rw [CharClass.text, ← CharClass.ofName?_eq_some_iff.mp hn, String.toList_ofList]
    · cases h
  · cases h

theorem class?_eq_some_iff {cs text after : List Char} {cls : CharClass} :
    class? cs = some (cls, text, after) ↔ text = cls.text ∧ cs = cls.text ++ after := by
  constructor
  · intro h
    have ht := text_of_class? h
    exact ⟨ht, ht ▸ eq_append_of_class? h⟩
  · rintro ⟨rfl, rfl⟩
    exact class?_text_append cls after

theorem class?_eq_none_iff {cs : List Char} : class? cs = none ↔ NoClass cs := by
  constructor
  · rintro h cls ⟨after, rfl⟩
    rw [class?_text_append] at h
    cases h
  · intro h
    cases hc : class? cs with
    | none => rfl
    | some found =>
        obtain ⟨cls, text, after⟩ := found
        exact absurd ⟨after, (class?_eq_some_iff.mp hc).2.symm⟩ (h cls)

theorem noClass_of_head_ne {c : Char} {cs : List Char} (h : c ≠ '[') : NoClass (c :: cs) := by
  rintro cls ⟨after, e⟩
  exact h (List.cons.inj e).1.symm

/-! ### Brackets -/

/-- Behind the start of a set, the text consists of the rest of its body, the bracket that closes
it, and `after`. -/
inductive SetText : List Char → List Char → List Char → Prop
  | close (after : List Char) : SetText (']' :: after) [] after
  | ofClass (cls : CharClass) {text body after : List Char} :
      SetText text body after → SetText (cls.text ++ text) (cls.text ++ body) after
  | pair (c : Char) {text body after : List Char} :
      SetText text body after → SetText ('\\' :: c :: text) ('\\' :: c :: body) after
  | char {c : Char} {text body after : List Char} :
      c ≠ ']' → c ≠ '\\' → NoClass (c :: text) → SetText text body after →
      SetText (c :: text) (c :: body) after

/-- As `SetText`, from the start of the set: a closing bracket that comes first is a member. -/
inductive SetStart : List Char → List Char → List Char → Prop
  | closer {text body after : List Char} :
      SetText text body after → SetStart (']' :: text) (']' :: body) after
  | other {text body after : List Char} :
      text.head? ≠ some ']' → SetText text body after → SetStart text body after

/-- Behind an opening bracket, the text consists of a set, negated or not, whose body this is,
its closing bracket, and `after`. -/
inductive Bracket : List Char → Bool → List Char → List Char → Prop
  | exclamation {text body after : List Char} :
      SetStart text body after → Bracket ('!' :: text) true body after
  | caret {text body after : List Char} :
      SetStart text body after → Bracket ('^' :: text) true body after
  | unsigned {text body after : List Char} :
      text.head? ≠ some '!' → text.head? ≠ some '^' → SetStart text body after →
      Bracket text false body after

theorem splitBracket?_eq_some_of_setText {cs inside after : List Char}
    (h : SetText cs inside after) : splitBracket? cs = some (inside, after) := by
  induction h with
  | close after =>
      have hc : class? (']' :: after) = none :=
        class?_eq_none_iff.mpr (noClass_of_head_ne (by decide))
      rw [splitBracket?]
      split
      · next h => rw [hc] at h; cases h
      · rfl
  | @ofClass cls text body after _ ih =>
      rw [splitBracket?]
      split
      · next h =>
          rw [class?_text_append] at h
          obtain ⟨rfl, rfl, rfl⟩ : cls = _ ∧ cls.text = _ ∧ text = _ := by simpa using h
          rw [ih]
          rfl
      · next h => rw [class?_text_append] at h; cases h
  | @pair c text body after _ ih =>
      have hc : class? ('\\' :: c :: text) = none :=
        class?_eq_none_iff.mpr (noClass_of_head_ne (by decide))
      rw [splitBracket?]
      split
      · next h => rw [hc] at h; cases h
      · simp [ih]
  | @char c text body after hclose hslash hclass _ ih =>
      rw [splitBracket?]
      split
      · next h => rw [class?_eq_none_iff.mpr hclass] at h; cases h
      · simp [hclose, hslash, ih]

theorem setText_of_splitBracket? {cs inside after : List Char}
    (h : splitBracket? cs = some (inside, after)) : SetText cs inside after := by
  fun_induction splitBracket? cs generalizing inside with
  | case1 cs cls text rest hc ih =>
      obtain ⟨⟨body, after'⟩, hb, he⟩ := Option.map_eq_some_iff.mp h
      obtain ⟨rfl, rfl⟩ := Prod.mk.inj he
      obtain ⟨rfl, rfl⟩ := class?_eq_some_iff.mp hc
      exact .ofClass cls (ih hb)
  | case2 => cases h
  | case3 rest =>
      obtain ⟨rfl, rfl⟩ := Prod.mk.inj (Option.some.inj h)
      exact .close _
  | case4 => cases h
  | case5 c rest _ _ ih =>
      obtain ⟨⟨body, after'⟩, hb, he⟩ := Option.map_eq_some_iff.mp h
      obtain ⟨rfl, rfl⟩ := Prod.mk.inj he
      exact .pair c (ih hb)
  | case6 c rest hclass hclose hslash ih =>
      obtain ⟨⟨body, after'⟩, hb, he⟩ := Option.map_eq_some_iff.mp h
      obtain ⟨rfl, rfl⟩ := Prod.mk.inj he
      exact .char hclose hslash (class?_eq_none_iff.mp hclass) (ih hb)

theorem splitSet?_eq_some_iff {cs inside after : List Char} :
    splitSet? cs = some (inside, after) ↔ SetStart cs inside after := by
  constructor
  · intro h
    unfold splitSet? at h
    split at h
    · next rest =>
        obtain ⟨⟨body, after'⟩, hb, he⟩ := Option.map_eq_some_iff.mp h
        obtain ⟨rfl, rfl⟩ := Prod.mk.inj he
        exact .closer (setText_of_splitBracket? hb)
    · next hne =>
        refine .other (fun hd => ?_) (setText_of_splitBracket? h)
        obtain ⟨rest, rfl⟩ := List.head?_eq_some_iff.mp hd
        exact hne rest rfl
  · intro h
    cases h with
    | closer h => simp [splitSet?, splitBracket?_eq_some_of_setText h]
    | other hd h =>
        unfold splitSet?
        split
        · exact absurd rfl hd
        · exact splitBracket?_eq_some_of_setText h

theorem map_sign_eq_some_iff {found : Option (List Char × List Char)} {negated : Bool}
    {parts : List Char × List Char} {sign : Bool} :
    (found.map fun parts => (sign, parts)) = some (negated, parts) ↔
      negated = sign ∧ found = some parts := by
  cases found with
  | none => simp
  | some parts' => simp [eq_comm]

/-- `bracket?` finds exactly the brackets of the grammar. -/
theorem bracket?_eq_some_iff {cs inside after : List Char} {negated : Bool} :
    bracket? cs = some (negated, inside, after) ↔ Bracket cs negated inside after := by
  unfold bracket?
  split
  · next rest =>
      rw [map_sign_eq_some_iff, splitSet?_eq_some_iff]
      constructor
      · rintro ⟨rfl, h⟩
        exact .exclamation h
      · intro h
        cases h with
        | exclamation h => exact ⟨rfl, h⟩
        | unsigned hd _ _ => exact absurd rfl hd
  · next rest =>
      rw [map_sign_eq_some_iff, splitSet?_eq_some_iff]
      constructor
      · rintro ⟨rfl, h⟩
        exact .caret h
      · intro h
        cases h with
        | caret h => exact ⟨rfl, h⟩
        | unsigned _ hd _ => exact absurd rfl hd
  · next h₁ h₂ =>
      rw [map_sign_eq_some_iff, splitSet?_eq_some_iff]
      constructor
      · rintro ⟨rfl, h⟩
        refine .unsigned (fun hd => ?_) (fun hd => ?_) h
        · obtain ⟨rest, rfl⟩ := List.head?_eq_some_iff.mp hd
          exact h₁ rest rfl
        · obtain ⟨rest, rfl⟩ := List.head?_eq_some_iff.mp hd
          exact h₂ rest rfl
      · intro h
        cases h with
        | exclamation _ => exact absurd rfl (h₁ _)
        | caret _ => exact absurd rfl (h₂ _)
        | unsigned _ _ h => exact ⟨rfl, h⟩

theorem bracket?_eq_none_iff {cs : List Char} :
    bracket? cs = none ↔ ∀ negated inside after, ¬ Bracket cs negated inside after := by
  constructor
  · intro h negated inside after hb
    rw [bracket?_eq_some_iff.mpr hb] at h
    cases h
  · intro h
    cases hb : bracket? cs with
    | none => rfl
    | some found => exact absurd (bracket?_eq_some_iff.mp hb) (h _ _ _)

/-! ### The parts of a set -/

/-- The text begins with the member `c` of a set, written as it is or behind a backslash.  A
backslash at the very end stands for itself. -/
inductive Member : List Char → Char → List Char → Prop
  | plain {c : Char} (rest : List Char) : c ≠ '\\' → Member (c :: rest) c rest
  | escaped (c : Char) (rest : List Char) : Member ('\\' :: c :: rest) c rest
  | backslash : Member ['\\'] '\\' []

/-- The text goes on with a hyphen that something follows. -/
def GoesOnToRange (text : List Char) : Prop := ∃ c rest, text = '-' :: c :: rest

/-- The parts of the body of a set, from left to right.  A hyphen between two members makes a
range of them; a hyphen at an edge is a member itself. -/
inductive Parts : List Char → List SetItem → Prop
  | nil : Parts [] []
  | ofClass (cls : CharClass) {rest : List Char} {items : List SetItem} :
      Parts rest items → Parts (cls.text ++ rest) (.ofClass cls :: items)
  | range {text upper rest : List Char} {low high : Char} {items : List SetItem} :
      NoClass text → Member text low ('-' :: upper) → Member upper high rest →
      Parts rest items → Parts text (.range low high :: items)
  | char {text rest : List Char} {c : Char} {items : List SetItem} :
      NoClass text → Member text c rest → ¬ GoesOnToRange rest → Parts rest items →
      Parts text (.char c :: items)

/-- The character belongs to the part of a set. -/
inductive SetItem.Has : SetItem → Char → Prop
  | ofClass {cls : CharClass} {low high c : Char} :
      (low, high) ∈ cls.ranges → low ≤ c → c ≤ high → Has (.ofClass cls) c
  | range {low high c : Char} : low ≤ c → c ≤ high → Has (.range low high) c
  | char (c : Char) : Has (.char c) c

/-- `contains` tests what belongs to a part of a set. -/
theorem SetItem.contains_iff {item : SetItem} {c : Char} :
    item.contains c = true ↔ item.Has c := by
  cases item with
  | ofClass cls =>
      rw [contains, CharClass.contains_iff]
      constructor
      · rintro ⟨⟨low, high⟩, hmem, hlow, hhigh⟩
        exact .ofClass hmem hlow hhigh
      · intro h
        cases h with
        | ofClass hmem hlow hhigh => exact ⟨_, hmem, hlow, hhigh⟩
  | range low high =>
      rw [contains, CharClass.between, Bool.and_eq_true, decide_eq_true_iff, decide_eq_true_iff]
      constructor
      · rintro ⟨hlow, hhigh⟩
        exact .range hlow hhigh
      · intro h
        cases h with
        | range hlow hhigh => exact ⟨hlow, hhigh⟩
  | char d =>
      rw [contains, beq_iff_eq]
      constructor
      · rintro rfl
        exact .char d
      · intro h
        cases h
        rfl

theorem setChar?_eq_some_iff {cs rest : List Char} {c : Char} :
    setChar? cs = some (c, rest) ↔ Member cs c rest := by
  unfold setChar?
  split
  · constructor <;> intro h <;> cases h
  · next d rest' =>
      constructor
      · intro h
        obtain ⟨rfl, rfl⟩ := Prod.mk.inj (Option.some.inj h)
        exact .escaped d rest'
      · intro h
        cases h with
        | plain _ hc => exact absurd rfl hc
        | escaped => rfl
  · next d rest' hne =>
      constructor
      · intro h
        obtain ⟨rfl, rfl⟩ := Prod.mk.inj (Option.some.inj h)
        by_cases hd : d = '\\'
        · subst hd
          cases rest' with
          | nil => exact .backslash
          | cons e rest'' => exact absurd rfl (hne e rest'' rfl)
        · exact .plain rest' hd
      · intro h
        cases h with
        | plain => rfl
        | escaped => exact absurd rfl (hne _ _ rfl)
        | backslash => rfl

theorem rangeEnd?_eq_some_iff {cs rest : List Char} {c : Char} :
    rangeEnd? cs = some (c, rest) ↔ ∃ upper, cs = '-' :: upper ∧ Member upper c rest := by
  unfold rangeEnd?
  split
  · next upper => simp [setChar?_eq_some_iff]
  · next hne =>
      constructor
      · intro h
        cases h
      · rintro ⟨upper, rfl, _⟩
        exact absurd rfl (hne upper)

theorem setChar?_eq_none_iff {cs : List Char} : setChar? cs = none ↔ cs = [] := by
  unfold setChar?
  split <;> simp

theorem rangeEnd?_eq_none_iff {cs : List Char} : rangeEnd? cs = none ↔ ¬ GoesOnToRange cs := by
  unfold rangeEnd? GoesOnToRange
  split
  · next upper =>
      rw [setChar?_eq_none_iff]
      cases upper <;> simp
  · next hne =>
      refine ⟨fun _ => ?_, fun _ => rfl⟩
      rintro ⟨c, rest, rfl⟩
      exact hne (c :: rest) rfl

theorem parts_setItems (cs : List Char) : Parts cs (setItems cs) := by
  fun_induction setItems cs with
  | case1 cs cls text after hc ih =>
      obtain ⟨rfl, rfl⟩ := class?_eq_some_iff.mp hc
      exact .ofClass cls ih
  | case2 cs _ hm =>
      rw [setChar?_eq_none_iff.mp hm]
      exact .nil
  | case3 cs hc low rest hlow high after hhigh ih =>
      obtain ⟨upper, rfl, hm⟩ := rangeEnd?_eq_some_iff.mp hhigh
      exact .range (class?_eq_none_iff.mp hc) (setChar?_eq_some_iff.mp hlow) hm ih
  | case4 cs hc low rest hlow hnone ih =>
      exact .char (class?_eq_none_iff.mp hc) (setChar?_eq_some_iff.mp hlow)
        (rangeEnd?_eq_none_iff.mp hnone) ih

theorem setItems_of_parts {cs : List Char} {items : List SetItem} (h : Parts cs items) :
    setItems cs = items := by
  induction h with
  | nil =>
      rw [setItems]
      rfl
  | ofClass cls _ ih =>
      rw [setItems]
      split
      · next h =>
          rw [class?_text_append] at h
          obtain ⟨rfl, -, rfl⟩ : cls = _ ∧ cls.text = _ ∧ _ = _ := by simpa using h
          rw [ih]
      · next h => rw [class?_text_append] at h; cases h
  | range hn hlow hhigh _ ih =>
      rw [setItems]
      split
      · next h => rw [class?_eq_none_iff.mpr hn] at h; cases h
      · split
        · next h => rw [setChar?_eq_some_iff.mpr hlow] at h; cases h
        · next h =>
            rw [setChar?_eq_some_iff.mpr hlow] at h
            obtain ⟨rfl, rfl⟩ := Prod.mk.inj (Option.some.inj h)
            split
            · next h =>
                rw [rangeEnd?_eq_some_iff.mpr ⟨_, rfl, hhigh⟩] at h
                obtain ⟨rfl, rfl⟩ := Prod.mk.inj (Option.some.inj h)
                rw [ih]
            · next h => rw [rangeEnd?_eq_some_iff.mpr ⟨_, rfl, hhigh⟩] at h; cases h
  | char hn hm hr _ ih =>
      rw [setItems]
      split
      · next h => rw [class?_eq_none_iff.mpr hn] at h; cases h
      · split
        · next h => rw [setChar?_eq_some_iff.mpr hm] at h; cases h
        · next h =>
            rw [setChar?_eq_some_iff.mpr hm] at h
            obtain ⟨rfl, rfl⟩ := Prod.mk.inj (Option.some.inj h)
            split
            · next h => rw [rangeEnd?_eq_none_iff.mpr hr] at h; cases h
            · rw [ih]

/-- `setItems` gives the one reading of a body that the grammar allows. -/
theorem setItems_eq_iff {cs : List Char} {items : List SetItem} :
    setItems cs = items ↔ Parts cs items :=
  ⟨fun h => h ▸ parts_setItems cs, setItems_of_parts⟩

/-! ### Patterns -/

/-- The text can be cut into one piece for each element of the pattern, from left to right. -/
inductive Matches : List Char → List Char → Prop
  | nil : Matches [] []
  /-- A star, with all stars that follow it, takes any stretch. -/
  | stars {pattern stretch text : List Char} :
      Matches (pattern.dropWhile (· == '*')) text → Matches ('*' :: pattern) (stretch ++ text)
  | any {pattern text : List Char} (c : Char) :
      Matches pattern text → Matches ('?' :: pattern) (c :: text)
  | escaped {pattern text : List Char} (c : Char) :
      Matches pattern text → Matches ('\\' :: c :: pattern) (c :: text)
  /-- A backslash with nothing behind it stands for itself. -/
  | backslash : Matches ['\\'] ['\\']
  /-- A bracket takes a character of its set, or one outside it when it is negated. -/
  | bracket {inside body pattern text : List Char} {negated : Bool} {items : List SetItem}
      {c : Char} :
      Bracket inside negated body pattern → Parts body items →
      ((∃ item ∈ items, item.Has c) ↔ negated = false) → Matches pattern text →
      Matches ('[' :: inside) (c :: text)
  /-- A bracket that is never closed stands for itself. -/
  | unclosed {pattern text : List Char} :
      (∀ negated body after, ¬ Bracket pattern negated body after) → Matches pattern text →
      Matches ('[' :: pattern) ('[' :: text)
  | literal {pattern text : List Char} {c : Char} :
      c ≠ '*' → c ≠ '?' → c ≠ '\\' → c ≠ '[' → Matches pattern text →
      Matches (c :: pattern) (c :: text)

end ShellExpansion.Glob
