import Mathlib.Data.List.Basic
import ShellExpansion.Parameter.Parser
import ShellExpansion.Proofs.Lexical.Segment

/-! # Where offsets and patterns end

An offset reaches to the first colon outside brackets that belongs to no conditional, and a pattern
that is replaced to the first slash outside quotes, escapes and expansions.  A text that has none of
its own (`ColonFree`, `SlashFree`) ends at the one behind it, and only such a text does
(`splitColon_eq_some_iff`, `splitSlash?_eq_some_iff`). -/

namespace ShellExpansion.Parameter

open Lexical

/-! ### Colons -/

/-- How many brackets a character opens; one that it closes counts off. -/
def bracketShift (c : Char) : Int :=
  if c = '(' ∨ c = '[' then 1 else if c = ')' ∨ c = ']' then -1 else 0

/-- How many brackets are open behind a text. -/
def openBrackets : List Char → Int
  | [] => 0
  | c :: rest => bracketShift c + openBrackets rest

/-- How many conditionals are open behind a text, in front of which `depth` brackets are open: a
question mark outside brackets opens one, and a colon outside brackets closes one. -/
def openConditionals (depth : Int) : List Char → Int
  | [] => 0
  | c :: rest =>
    (if depth = 0 then if c = '?' then 1 else if c = ':' then -1 else 0 else 0)
      + openConditionals (depth + bracketShift c) rest

/-- Every colon outside brackets belongs to a conditional, where `depth` brackets and `pending`
conditionals are open in front of the text. -/
def ColonFreeFrom (depth : Int) (pending : Nat) (text : List Char) : Prop :=
  ∀ front back, text = front ++ ':' :: back → depth + openBrackets front = 0 →
    0 < pending + openConditionals depth front

/-- Every colon outside brackets belongs to a conditional. -/
def ColonFree (text : List Char) : Prop := ColonFreeFrom 0 0 text

/-- What `splitColon` counts brackets up to behind a character. -/
theorem bracketShift_eq (depth : Int) (c : Char) :
    (if c = '(' ∨ c = '[' then depth + 1 else if c = ')' ∨ c = ']' then depth - 1 else depth) =
      depth + bracketShift c := by
  unfold bracketShift
  split_ifs <;> omega

/-- A colon that ends the offset, or a character that goes on with it. -/
theorem splitColon_cons (depth : Int) (pending : Nat) (c : Char) (rest : List Char) :
    (c = ':' ∧ depth = 0 ∧ pending = 0 ∧ splitColon depth pending (c :: rest) = ([], some rest)) ∨
      ∃ pending' : Nat, (pending' : Int) = pending +
          (if depth = 0 then if c = '?' then 1 else if c = ':' then -1 else 0 else 0) ∧
        (c = ':' → depth = 0 → 0 < pending) ∧
        splitColon depth pending (c :: rest) =
          (c :: (splitColon (depth + bracketShift c) pending' rest).1,
            (splitColon (depth + bracketShift c) pending' rest).2) := by
  rw [splitColon, bracketShift_eq]
  by_cases hends : c = ':' ∧ depth = 0 ∧ pending = 0
  · rw [if_pos hends]
    exact .inl ⟨hends.1, hends.2.1, hends.2.2, rfl⟩
  · rw [if_neg hends]
    have hpending : c = ':' → depth = 0 → 0 < pending := by
      intro hc hdepth
      by_contra hnone
      exact hends ⟨hc, hdepth, by omega⟩
    refine .inr ⟨_, ?_, hpending, rfl⟩
    by_cases hquestion : c = '?' ∧ depth = 0
    · rw [if_pos hquestion, if_pos hquestion.2, if_pos hquestion.1]
      rfl
    · rw [if_neg hquestion]
      by_cases hcolon : c = ':' ∧ depth = 0
      · have := hpending hcolon.1 hcolon.2
        rw [if_pos hcolon, if_pos hcolon.2, hcolon.1, if_neg (by decide), if_pos rfl]
        omega
      · rw [if_neg hcolon]
        split_ifs <;> simp_all

theorem colonFreeFrom_nil (depth : Int) (pending : Nat) : ColonFreeFrom depth pending [] := by
  intro front back h
  simp at h

theorem ColonFreeFrom.cons {depth : Int} {pending pending' : Nat} {c : Char} {text : List Char}
    (hpending : (pending' : Int) = pending +
      (if depth = 0 then if c = '?' then 1 else if c = ':' then -1 else 0 else 0))
    (hc : c = ':' → depth = 0 → 0 < pending)
    (h : ColonFreeFrom (depth + bracketShift c) pending' text) :
    ColonFreeFrom depth pending (c :: text) := by
  intro front back heq hdepth
  cases front with
  | nil =>
      obtain ⟨rfl, -⟩ := List.cons.inj (heq.trans (List.nil_append _))
      rw [openBrackets, Int.add_zero] at hdepth
      rw [openConditionals]
      have := hc rfl hdepth
      omega
  | cons d front =>
      obtain ⟨rfl, htail⟩ := List.cons.inj (heq.trans (List.cons_append ..))
      rw [openBrackets] at hdepth
      have hopen := h front back htail (by omega)
      rw [openConditionals]
      omega

/-- **What a split at a colon finds**: a text that has no colon of its own, with the first colon
behind it at which nothing is open. -/
theorem splitColon_spec : ∀ (text : List Char) (depth : Int) (pending : Nat),
    ((splitColon depth pending text).2 = none →
      (splitColon depth pending text).1 = text ∧ ColonFreeFrom depth pending text) ∧
    ∀ back, (splitColon depth pending text).2 = some back →
      text = (splitColon depth pending text).1 ++ ':' :: back ∧
      ColonFreeFrom depth pending (splitColon depth pending text).1 ∧
      depth + openBrackets (splitColon depth pending text).1 = 0 ∧
      pending + openConditionals depth (splitColon depth pending text).1 = 0
  | [], depth, pending => by
      refine ⟨fun _ => ⟨rfl, colonFreeFrom_nil depth pending⟩, fun back h => ?_⟩
      cases h
  | c :: rest, depth, pending => by
      obtain ⟨rfl, rfl, rfl, heq⟩ | ⟨pending', hpending, hc, heq⟩ :=
        splitColon_cons depth pending c rest
      · rw [heq]
        refine ⟨fun h => (by cases h), fun back h => ?_⟩
        cases h
        exact ⟨rfl, colonFreeFrom_nil 0 0, rfl, rfl⟩
      · obtain ⟨hnone, hsome⟩ := splitColon_spec rest (depth + bracketShift c) pending'
        rw [heq]
        refine ⟨fun h => ?_, fun back h => ?_⟩
        · obtain ⟨htext, hfree⟩ := hnone h
          exact ⟨by rw [htext], .cons hpending hc hfree⟩
        · obtain ⟨htext, hfree, hdepth, hopen⟩ := hsome back h
          refine ⟨by rw [List.cons_append, ← htext], .cons hpending hc hfree, ?_, ?_⟩
          · rw [openBrackets]
            omega
          · rw [openConditionals]
            omega

/-- A text that has no colon of its own is not split. -/
theorem splitColon_eq_none_iff {text : List Char} :
    splitColon 0 0 text = (text, none) ↔ ColonFree text := by
  obtain ⟨hnone, hsome⟩ := splitColon_spec text 0 0
  refine ⟨fun h => (hnone (by rw [h])).2, fun hfree => ?_⟩
  cases hback : (splitColon 0 0 text).2 with
  | none => exact Prod.ext (hnone hback).1 hback
  | some back =>
      obtain ⟨htext, -, hdepth, hopen⟩ := hsome back hback
      have := hfree _ back htext hdepth
      omega

/-- The text is an offset that a colon behind it ends. -/
structure IsOffset (text : List Char) : Prop where
  colonFree : ColonFree text
  brackets : openBrackets text = 0
  conditionals : openConditionals 0 text = 0

theorem openBrackets_of_forall {text : List Char} (h : ∀ c ∈ text, bracketShift c = 0) :
    openBrackets text = 0 := by
  induction text with
  | nil => rfl
  | cons c rest ih =>
      rw [List.forall_mem_cons] at h
      rw [openBrackets, h.1, ih h.2, Int.zero_add]

theorem openConditionals_of_forall {text : List Char} (h : ∀ c ∈ text, c ≠ '?' ∧ c ≠ ':')
    (depth : Int) : openConditionals depth text = 0 := by
  induction text generalizing depth with
  | nil => rfl
  | cons c rest ih =>
      rw [List.forall_mem_cons] at h
      rw [openConditionals, if_neg h.1.1, if_neg h.1.2, ite_self, ih h.2, Int.zero_add]

/-- A text without colons, question marks and brackets is an offset. -/
theorem isOffset_of_forall {text : List Char} (h : ∀ c ∈ text, c ∉ "?:()[]".toList) :
    IsOffset text := by
  have hmarks (c : Char) (hc : c ∈ text) : bracketShift c = 0 ∧ c ≠ '?' ∧ c ≠ ':' := by
    have hnot := h c hc
    simp at hnot
    obtain ⟨hquestion, hcolon, hopen, hclose, hopen', hclose'⟩ := hnot
    exact ⟨by simp [bracketShift, hopen, hclose, hopen', hclose'], hquestion, hcolon⟩
  refine ⟨?_, openBrackets_of_forall fun c hc => (hmarks c hc).1,
    openConditionals_of_forall (fun c hc => (hmarks c hc).2) 0⟩
  rintro front back rfl
  exact absurd rfl (hmarks ':' (by simp)).2.2

/-- No shorter text in front of a colon is an offset too. -/
theorem IsOffset.length_le {front front' back back' : List Char} (h : IsOffset front)
    (h' : IsOffset front') (htext : front ++ ':' :: back = front' ++ ':' :: back') :
    front'.length ≤ front.length := by
  obtain ⟨middle, rfl, hmiddle⟩ | ⟨middle, rfl, hmiddle⟩ := List.append_eq_append_iff.mp htext
  · cases middle with
    | nil => exact Nat.le_of_eq (congrArg List.length (List.append_nil front))
    | cons c middle =>
        obtain ⟨rfl, -⟩ := List.cons.inj hmiddle
        have hopen := h'.colonFree front middle rfl (by rw [h.brackets, Int.add_zero])
        rw [h.conditionals] at hopen
        exact absurd hopen (by decide)
  · rw [List.length_append]
    exact Nat.le_add_right _ _

/-- A text is split at the colon behind an offset. -/
theorem splitColon_eq_some_iff {offset length : List Char} :
    splitColon 0 0 (offset ++ ':' :: length) = (offset, some length) ↔ IsOffset offset := by
  obtain ⟨hnone, hsome⟩ := splitColon_spec (offset ++ ':' :: length) 0 0
  have hoffset : ∀ back, (splitColon 0 0 (offset ++ ':' :: length)).2 = some back →
      IsOffset (splitColon 0 0 (offset ++ ':' :: length)).1 := by
    intro back hback
    obtain ⟨-, hfree, hdepth, hopen⟩ := hsome back hback
    exact ⟨hfree, by omega, by omega⟩
  constructor
  · intro h
    rw [h] at hoffset
    exact hoffset length rfl
  · intro h
    cases hback : (splitColon 0 0 (offset ++ ':' :: length)).2 with
    | none =>
        have hopen := (hnone hback).2 offset length rfl (by rw [h.brackets, Int.add_zero])
        rw [h.conditionals] at hopen
        exact absurd hopen (by decide)
    | some back =>
        obtain ⟨htext, -⟩ := hsome back hback
        have h' := hoffset back hback
        have hlength := Nat.le_antisymm (h'.length_le h htext.symm) (h.length_le h' htext)
        obtain ⟨hfront, hrest⟩ := List.append_inj htext hlength
        exact Prod.ext hfront.symm (hback.trans (congrArg some (List.cons.inj hrest).2.symm))

/-! ### Slashes -/

/-- No slash of the text stands outside quotes, escapes and expansions, and all of these are
closed. -/
inductive SlashFree : List Char → Prop
  | nil : SlashFree []
  | bare {c : Char} {rest : List Char} (hc : IsBare c) (hslash : c ≠ '/') (h : SlashFree rest) :
      SlashFree (c :: rest)
  /-- A dollar sign that begins no expansion. -/
  | dollar {rest : List Char} (hbrace : rest.head? ≠ some '\x7b')
      (harithmetic : rest.take 2 ≠ ['(', '(']) (h : SlashFree rest) : SlashFree ('$' :: rest)
  | stretch {first rest : List Char} (hfirst : IsStretch first) (h : SlashFree rest) :
      SlashFree (first ++ rest)
  | arithmetic {inside rest : List Char} (hcloses : Closes '(' ')' inside) (h : SlashFree rest) :
      SlashFree ('$' :: '(' :: '(' :: (inside ++ ')' :: rest))

theorem splitSlash?_of_arithmetic? {cs first after : List Char}
    (h : arithmetic? cs = some (some (first, after))) :
    splitSlash? cs = (splitSlash? after).map (appendFirst first) := by
  rw [splitSlash?]
  split
  · next h' => rw [h] at h'; cases h'
  · next h' =>
      rw [h] at h'
      cases h'
      rfl
  · next h' => rw [h] at h'; cases h'

theorem splitSlash?_of_shielded? {cs first after : List Char} (harithmetic : arithmetic? cs = none)
    (h : shielded? cs = some (first, after)) :
    splitSlash? cs = (splitSlash? after).map (appendFirst first) := by
  rw [splitSlash?]
  split
  · next h' => rw [harithmetic] at h'; cases h'
  · next h' => rw [harithmetic] at h'; cases h'
  · split
    · next h' =>
        rw [h] at h'
        cases h'
        rfl
    · next h' => rw [h] at h'; cases h'

theorem splitSlash?_cons {c : Char} {rest : List Char}
    (harithmetic : arithmetic? (c :: rest) = none) (hshielded : shielded? (c :: rest) = none) :
    splitSlash? (c :: rest) =
      if c = '/' then some ([], rest) else (splitSlash? rest).map (consFirst c) := by
  rw [splitSlash?]
  split
  · next h' => rw [harithmetic] at h'; cases h'
  · next h' => rw [harithmetic] at h'; cases h'
  · split
    · next h' => rw [hshielded] at h'; cases h'
    · rfl

theorem arithmetic?_of_ne_dollar {c : Char} (hc : c ≠ '$') (rest : List Char) :
    arithmetic? (c :: rest) = none := by
  unfold arithmetic?
  split
  · next heq => exact absurd (List.cons.inj heq).1 hc
  · rfl

theorem arithmetic?_stretch {first : List Char} (h : IsStretch first) (rest : List Char) :
    arithmetic? (first ++ rest) = none := by
  cases h <;> rfl

theorem arithmetic?_closed {inside : List Char} (h : Closes '(' ')' inside) (rest : List Char) :
    arithmetic? ('$' :: '(' :: '(' :: (inside ++ ')' :: rest)) =
      some (some ('$' :: '(' :: '(' :: (inside ++ [')']), rest)) := by
  rw [arithmetic?, h.splitClosing?_eq (by decide)]
  rfl

theorem exists_of_arithmetic? {cs first after : List Char}
    (h : arithmetic? cs = some (some (first, after))) :
    ∃ inside, Closes '(' ')' inside ∧ cs = '$' :: '(' :: '(' :: (inside ++ ')' :: after) ∧
      first = '$' :: '(' :: '(' :: (inside ++ [')']) := by
  unfold arithmetic? at h
  split at h
  · obtain ⟨parts, hparts, heq⟩ := Option.map_eq_some_iff.mp (Option.some.inj h)
    obtain ⟨rfl, rfl⟩ := Prod.mk.inj heq
    exact ⟨parts.1, closes_of_splitClosing? (by decide) hparts,
      by rw [eq_append_of_splitClosing? hparts], rfl⟩
  · cases h

theorem shielded?_dollar {rest : List Char} (hbrace : rest.head? ≠ some '\x7b')
    (text : List Char) : shielded? ('$' :: (rest ++ '/' :: text)) = none := by
  cases rest with
  | nil => rfl
  | cons c rest =>
      unfold shielded?
      split <;> simp_all

theorem arithmetic?_dollar {rest : List Char} (harithmetic : rest.take 2 ≠ ['(', '('])
    (text : List Char) : arithmetic? ('$' :: (rest ++ '/' :: text)) = none := by
  unfold arithmetic?
  split
  · next heq =>
      cases rest with
      | nil => cases heq
      | cons c rest =>
          cases rest with
          | nil => simp at heq
          | cons d rest => simp_all
  · rfl

/-- **A pattern without a slash of its own ends at the one behind it.** -/
theorem SlashFree.splitSlash?_eq {pattern : List Char} (h : SlashFree pattern)
    (text : List Char) : splitSlash? (pattern ++ '/' :: text) = some (pattern, text) := by
  induction h with
  | nil => rw [List.nil_append, splitSlash?_cons rfl rfl, if_pos rfl]
  | @bare c rest hc hslash _ ih =>
      rw [List.cons_append, splitSlash?_cons (arithmetic?_of_ne_dollar hc.2.2.2 _)
        (shielded?_bare hc _), if_neg hslash, ih]
      rfl
  | @dollar rest hbrace harithmetic _ ih =>
      rw [List.cons_append, splitSlash?_cons (arithmetic?_dollar harithmetic text)
        (shielded?_dollar hbrace text), if_neg (by decide), ih]
      rfl
  | stretch hfirst _ ih =>
      rw [List.append_assoc, splitSlash?_of_shielded? (arithmetic?_stretch hfirst _)
        (hfirst.shielded?_eq _), ih]
      rfl
  | @arithmetic inside rest hcloses _ ih =>
      have hread := arithmetic?_closed hcloses (rest ++ '/' :: text)
      simp only [List.cons_append, List.append_assoc]
      rw [splitSlash?_of_arithmetic? hread, ih]
      simp [appendFirst]

theorem SlashFree.head?_ne {pattern : List Char} (h : SlashFree pattern) :
    pattern.head? ≠ some '/' := by
  intro hhead
  obtain ⟨rest, rfl⟩ := List.head?_eq_some_iff.mp hhead
  have hsplit := h.splitSlash?_eq []
  rw [List.cons_append, splitSlash?_cons rfl rfl, if_pos rfl] at hsplit
  cases hsplit

/-- A character that begins nothing goes on a pattern. -/
theorem SlashFree.cons {c : Char} {pattern text : List Char} (h : SlashFree pattern)
    (harithmetic : arithmetic? (c :: (pattern ++ '/' :: text)) = none)
    (hshielded : shielded? (c :: (pattern ++ '/' :: text)) = none) (hslash : c ≠ '/') :
    SlashFree (c :: pattern) := by
  by_cases hdollar : c = '$'
  · subst hdollar
    refine .dollar ?_ ?_ h
    · intro hhead
      obtain ⟨rest, rfl⟩ := List.head?_eq_some_iff.mp hhead
      cases hshielded
    · intro htake
      rw [← List.take_append_drop 2 pattern, htake] at harithmetic
      cases harithmetic
  · refine .bare ⟨?_, ?_, ?_, hdollar⟩ hslash h
    · rintro rfl
      cases pattern <;> cases hshielded
    · rintro rfl
      cases hshielded
    · rintro rfl
      cases hshielded

/-- **A split at a slash leaves a pattern without one of its own** in front. -/
theorem slashFree_of_splitSlash? {cs pattern text : List Char}
    (h : splitSlash? cs = some (pattern, text)) :
    cs = pattern ++ '/' :: text ∧ SlashFree pattern := by
  fun_induction splitSlash? cs generalizing pattern with
  | case1 => cases h
  | case2 cs first after harithmetic ih =>
      obtain ⟨parts, hparts, heq⟩ := Option.map_eq_some_iff.mp h
      obtain ⟨rfl, rfl⟩ := Prod.mk.inj heq
      obtain ⟨rfl, hfree⟩ := ih hparts
      obtain ⟨inside, hcloses, rfl, rfl⟩ := exists_of_arithmetic? harithmetic
      simp only [List.cons_append, List.append_assoc]
      exact ⟨rfl, .arithmetic hcloses hfree⟩
  | case3 cs harithmetic first after hshielded ih =>
      obtain ⟨parts, hparts, heq⟩ := Option.map_eq_some_iff.mp h
      obtain ⟨rfl, rfl⟩ := Prod.mk.inj heq
      obtain ⟨rfl, hfree⟩ := ih hparts
      have hstretch := isStretch_of_shielded? hshielded (by simp)
      exact ⟨by rw [eq_append_of_shielded? hshielded, List.append_assoc], .stretch hstretch hfree⟩
  | case4 => cases h
  | case5 rest harithmetic hshielded =>
      obtain ⟨rfl, rfl⟩ := Prod.mk.inj (Option.some.inj h)
      exact ⟨rfl, .nil⟩
  | case6 c rest harithmetic hshielded hslash ih =>
      obtain ⟨parts, hparts, heq⟩ := Option.map_eq_some_iff.mp h
      obtain ⟨rfl, rfl⟩ := Prod.mk.inj heq
      obtain ⟨rfl, hfree⟩ := ih hparts
      exact ⟨rfl, hfree.cons harithmetic hshielded hslash⟩

/-- A pattern ends at the slash behind it just if it has none of its own. -/
theorem splitSlash?_eq_some_iff {pattern text : List Char} :
    splitSlash? (pattern ++ '/' :: text) = some (pattern, text) ↔ SlashFree pattern :=
  ⟨fun h => (slashFree_of_splitSlash? h).2, fun h => h.splitSlash?_eq text⟩

end ShellExpansion.Parameter
