import Mathlib.Data.List.Infix
import ShellExpansion.Glob.Search

/-! # What the rows of a pattern hold

`Takes elements text` says that the elements take the text piece by piece, `Leaves elements text
rest` that they take a stretch at its start and leave `rest`.  The row of a pattern on a text has
one entry for each suffix of the text (`remainders_eq_map_entry`), and the entry is the preferred
number of characters left (`best_entry`): the smallest in a row of longest matches, the largest in
a row of shortest ones.  `Best` is the notion of a preferred candidate, also used for the spans
that searches find. -/

namespace ShellExpansion.Glob

/-! ### Preferred candidates -/

section Best
variable {α : Type} (le : α → α → Prop)

/-- The candidate that stands in relation `le` to all candidates; none when there is none. -/
def Best (candidate : α → Prop) : Option α → Prop
  | none => ∀ a, ¬ candidate a
  | some a => candidate a ∧ ∀ b, candidate b → le a b

variable {le}

theorem Best.congr {p q : α → Prop} {found : Option α} (h : Best le p found)
    (hpq : ∀ a, q a ↔ p a) : Best le q found := by
  obtain rfl : q = p := funext fun a => propext (hpq a)
  exact h

theorem Best.isSome_iff {p : α → Prop} {found : Option α} (h : Best le p found) :
    found.isSome = true ↔ ∃ a, p a := by
  cases found with
  | none => simpa [Best] using h
  | some a => simpa using ⟨a, h.1⟩

end Best

/-- `better` picks of two numbers the one that is preferred by `le`. -/
structure Selects (better : ℕ → ℕ → ℕ) (le : ℕ → ℕ → Prop) : Prop where
  refl : ∀ m, le m m
  trans : ∀ {m n k}, le m n → le n k → le m k
  pick : ∀ m n, better m n = m ∧ le m n ∨ better m n = n ∧ le n m

theorem selects_min : Selects min (· ≤ ·) :=
  ⟨le_refl, le_trans, fun m n => by omega⟩

theorem selects_max : Selects max (· ≥ ·) :=
  ⟨le_refl, fun h₁ h₂ => le_trans h₂ h₁, fun m n => by omega⟩

theorem Best.pick {better : ℕ → ℕ → ℕ} {le : ℕ → ℕ → Prop} (hs : Selects better le)
    {p q : ℕ → Prop} {a b : Option ℕ} (ha : Best le p a) (hb : Best le q b) :
    Best le (fun n => p n ∨ q n) (Glob.pick better a b) := by
  cases a with
  | none => exact hb.congr fun n => or_iff_right (ha n)
  | some m =>
      cases b with
      | none => exact ha.congr fun n => or_iff_left (hb n)
      | some n =>
          obtain ⟨hp, hm⟩ := ha
          obtain ⟨hq, hn⟩ := hb
          rcases hs.pick m n with ⟨e, h⟩ | ⟨e, h⟩ <;> rw [Glob.pick, e]
          · refine ⟨.inl hp, fun k hk => ?_⟩
            rcases hk with hk | hk
            · exact hm k hk
            · exact hs.trans h (hn k hk)
          · refine ⟨.inr hq, fun k hk => ?_⟩
            rcases hk with hk | hk
            · exact hs.trans h (hm k hk)
            · exact hn k hk

/-! ### Taking a text -/

/-- The elements take the text, one piece for each of them. -/
inductive Takes : List Element → List Char → Prop
  | nil : Takes [] []
  | star {elements : List Element} {text : List Char} (stretch : List Char) :
      Takes elements text → Takes (.star :: elements) (stretch ++ text)
  | one {element : Element} {elements : List Element} {c : Char} {text : List Char} :
      element.accepts c = true → Takes elements text → Takes (element :: elements) (c :: text)

/-- The elements take a stretch at the start of the text and leave `rest`. -/
def Leaves (elements : List Element) (text rest : List Char) : Prop :=
  ∃ piece, text = piece ++ rest ∧ Takes elements piece

theorem leaves_nil {text rest : List Char} : Leaves [] text rest ↔ rest = text := by
  constructor
  · rintro ⟨piece, rfl, h⟩
    cases h
    rfl
  · rintro rfl
    exact ⟨[], rfl, .nil⟩

theorem leaves_star {elements : List Element} {text rest : List Char} :
    Leaves (.star :: elements) text rest ↔
      ∃ suffix, suffix <:+ text ∧ Leaves elements suffix rest := by
  constructor
  · rintro ⟨piece, rfl, h⟩
    cases h with
    | @star _ piece stretch h => exact ⟨piece ++ rest, ⟨stretch, by simp⟩, piece, rfl, h⟩
    | one hc => cases hc
  · rintro ⟨suffix, ⟨stretch, rfl⟩, piece, rfl, h⟩
    exact ⟨stretch ++ piece, by simp, .star stretch h⟩

theorem leaves_star_nil {elements : List Element} {rest : List Char} :
    Leaves (.star :: elements) [] rest ↔ Leaves elements [] rest := by
  simp [leaves_star]

theorem leaves_star_cons {elements : List Element} {c : Char} {text rest : List Char} :
    Leaves (.star :: elements) (c :: text) rest ↔
      Leaves elements (c :: text) rest ∨ Leaves (.star :: elements) text rest := by
  simp only [leaves_star, List.suffix_cons_iff]
  constructor
  · rintro ⟨suffix, rfl | hs, h⟩
    · exact .inl h
    · exact .inr ⟨suffix, hs, h⟩
  · rintro (h | ⟨suffix, hs, h⟩)
    · exact ⟨c :: text, .inl rfl, h⟩
    · exact ⟨suffix, .inr hs, h⟩

theorem not_leaves_one_nil {element : Element} {elements : List Element} {rest : List Char}
    (he : element ≠ .star) : ¬ Leaves (element :: elements) [] rest := by
  rintro ⟨piece, hp, h⟩
  obtain ⟨rfl, rfl⟩ := List.append_eq_nil_iff.mp hp.symm
  generalize hs : ([] : List Char) = text at h
  cases h with
  | star => exact he rfl
  | one => cases hs

theorem leaves_one_cons {element : Element} {elements : List Element} {c : Char}
    {text rest : List Char} (he : element ≠ .star) :
    Leaves (element :: elements) (c :: text) rest ↔
      element.accepts c = true ∧ Leaves elements text rest := by
  constructor
  · rintro ⟨piece, hp, h⟩
    cases h with
    | star => exact absurd rfl he
    | one hc h =>
        obtain ⟨rfl, rfl⟩ := List.cons.inj hp
        exact ⟨hc, _, rfl, h⟩
  · rintro ⟨hc, piece, rfl, h⟩
    exact ⟨c :: piece, rfl, .one hc h⟩

theorem leaves_nil_right {elements : List Element} {text : List Char} :
    Leaves elements text [] ↔ Takes elements text := by
  simp [Leaves]

/-! ### Entries -/

/-- The entry of a row for the whole text. -/
def entry (better : ℕ → ℕ → ℕ) (elements : List Element) (text : List Char) : Option ℕ :=
  (remainders better elements text).head?.join

variable {better : ℕ → ℕ → ℕ}

theorem remainders_star (elements : List Element) (text : List Char) :
    remainders better (.star :: elements) text = starRow better (remainders better elements text) :=
  rfl

theorem remainders_one {element : Element} (he : element ≠ .star) (elements : List Element)
    (text : List Char) :
    remainders better (element :: elements) text =
      oneRow element.accepts text (remainders better elements text) := by
  cases element with
  | star => exact absurd rfl he
  | _ => rfl

/-- The row on a text goes on with the row on the text without its first character. -/
theorem remainders_cons (elements : List Element) (c : Char) (text : List Char) :
    remainders better elements (c :: text) =
      entry better elements (c :: text) :: remainders better elements text := by
  induction elements with
  | nil => rfl
  | cons element elements ih =>
      unfold entry
      by_cases he : element = .star
      · subst he
        rw [remainders_star, ih]
        rfl
      · rw [remainders_one he, ih, remainders_one he]
        rfl

theorem remainders_nil (elements : List Element) :
    remainders better elements [] = [entry better elements []] := by
  induction elements with
  | nil => rfl
  | cons element elements ih =>
      unfold entry
      by_cases he : element = .star
      · subst he
        rw [remainders_star, ih]
        rfl
      · rw [remainders_one he, ih]
        rfl

/-- A row has one entry for each suffix of the text. -/
theorem remainders_eq_map_entry (elements : List Element) : ∀ text : List Char,
    remainders better elements text = text.tails.map (entry better elements)
  | [] => remainders_nil elements
  | c :: text => by
      rw [remainders_cons, remainders_eq_map_entry elements text, List.tails_cons, List.map_cons]

theorem length_remainders (elements : List Element) (text : List Char) :
    (remainders better elements text).length = text.length + 1 := by
  rw [remainders_eq_map_entry, List.length_map, List.length_tails]

theorem getElem_remainders (elements : List Element) (text : List Char) (start : ℕ)
    (h : start < (remainders better elements text).length) :
    (remainders better elements text)[start] = entry better elements (text.drop start) := by
  simp only [remainders_eq_map_entry, List.getElem_map, List.getElem_tails]

theorem drop_remainders (elements : List Element) : ∀ {text : List Char} {start : ℕ},
    start ≤ text.length →
      (remainders better elements text).drop start = remainders better elements (text.drop start)
  | text, 0, _ => rfl
  | [], start + 1, h => by cases h
  | c :: text, start + 1, h => by
      rw [remainders_cons, List.drop_succ_cons, List.drop_succ_cons]
      exact drop_remainders elements (Nat.le_of_succ_le_succ h)

theorem entry_nil (text : List Char) : entry better [] text = some text.length := by
  cases text <;> rfl

theorem entry_star_nil (elements : List Element) :
    entry better (.star :: elements) [] = entry better elements [] := by
  conv_lhs => rw [entry, remainders_star, remainders_nil]
  cases entry better elements [] <;> rfl

theorem entry_star_cons (elements : List Element) (c : Char) (text : List Char) :
    entry better (.star :: elements) (c :: text) =
      pick better (entry better elements (c :: text)) (entry better (.star :: elements) text) := by
  conv_lhs => rw [entry, remainders_star, remainders_cons]
  rfl

theorem entry_one_nil {element : Element} (he : element ≠ .star) (elements : List Element) :
    entry better (element :: elements) [] = none := by
  rw [entry, remainders_one he, remainders_nil]
  rfl

theorem entry_one_cons {element : Element} (he : element ≠ .star) (elements : List Element)
    (c : Char) (text : List Char) :
    entry better (element :: elements) (c :: text) =
      if element.accepts c then entry better elements text else none := by
  rw [entry, remainders_one he, remainders_cons]
  rfl

/-- The numbers of characters that the elements can leave. -/
def LeavesCount (elements : List Element) (text : List Char) (n : ℕ) : Prop :=
  ∃ rest, Leaves elements text rest ∧ rest.length = n

/-- **An entry is the preferred number of characters left.** -/
theorem best_entry {le : ℕ → ℕ → Prop} (hs : Selects better le) (elements : List Element) :
    ∀ text : List Char, Best le (LeavesCount elements text) (entry better elements text) := by
  induction elements with
  | nil =>
      intro text
      rw [entry_nil]
      refine ⟨⟨text, leaves_nil.mpr rfl, rfl⟩, ?_⟩
      rintro n ⟨rest, h, rfl⟩
      rw [leaves_nil.mp h]
      exact hs.refl _
  | cons element elements ih =>
      intro text
      by_cases he : element = .star
      · subst he
        induction text with
        | nil =>
            rw [entry_star_nil]
            exact (ih []).congr fun n => by simp only [LeavesCount, leaves_star_nil]
        | cons c text iht =>
            rw [entry_star_cons]
            refine ((ih (c :: text)).pick hs iht).congr fun n => ?_
            simp only [LeavesCount, leaves_star_cons, or_and_right, exists_or]
      · cases text with
        | nil =>
            rw [entry_one_nil he]
            rintro n ⟨rest, h, _⟩
            exact not_leaves_one_nil he h
        | cons c text =>
            rw [entry_one_cons he]
            split
            · next hc =>
                exact (ih text).congr fun n => by
                  simp only [LeavesCount, leaves_one_cons he, hc, true_and]
            · next hc =>
                rintro n ⟨rest, h, _⟩
                exact hc ((leaves_one_cons he).mp h).1

/-! ### Whole texts -/

theorem matchesList_iff {elements : List Element} {text : List Char} :
    matchesList elements text = true ↔ Takes elements text := by
  have hb := best_entry selects_min elements text
  have hm : matchesList elements text = (entry min elements text == some 0) := rfl
  rw [hm, beq_iff_eq, ← leaves_nil_right]
  constructor
  · intro h
    rw [h] at hb
    obtain ⟨⟨rest, hl, hn⟩, _⟩ := hb
    rwa [List.length_eq_zero_iff.mp hn] at hl
  · intro h
    cases he : entry min elements text with
    | none =>
        rw [he] at hb
        exact absurd ⟨[], h, rfl⟩ (hb 0)
    | some n =>
        rw [he] at hb
        rw [Nat.le_zero.mp (hb.2 0 ⟨[], h, rfl⟩)]

end ShellExpansion.Glob
