import ShellExpansion.Proofs.Glob.Rows

/-! # Greedy backtracking finds the longest match

A matcher that tries the choices of each star from the longest stretch down, and takes the first
way through that works (`backtrack`), need not find the longest match in general.  For patterns
it does: besides stars there are only elements of one character, so a match can always be moved
to the right.  If the elements match behind some position, ending at `a`, and also match further
right, ending at `b`, then they match from the further position with an end that is behind both
`a` and `b` (`Leaves.advance`).  Hence what backtracking finds first is the longest match
(`best_backtrack`), which is the entry of the row (`entry_min_eq_backtrack`).  Searches built on
backtracking (`backtrackSearch`) therefore agree with those that read rows. -/

namespace ShellExpansion.Glob

/-- What the first match at the start of a text leaves.  A star first takes as much as it can,
and gives back one character after the other while the elements behind it do not match. -/
def backtrack : List Element → List Char → Option (List Char)
  | [], text => some text
  | .star :: elements, [] => backtrack elements []
  | .star :: elements, c :: text =>
      (backtrack (.star :: elements) text).or (backtrack elements (c :: text))
  | _ :: _, [] => none
  | element :: elements, c :: text =>
      if element.accepts c then backtrack elements text else none
termination_by elements text => (elements.length, text.length)

/-- **A match can be moved to the right** without an earlier end. -/
theorem Leaves.advance {elements : List Element} :
    ∀ {text suffix rest rest' : List Char}, Leaves elements text rest → suffix <:+ text →
      Leaves elements suffix rest' →
      ∃ rest'', Leaves elements suffix rest'' ∧ rest''.length ≤ rest.length ∧
        rest''.length ≤ rest'.length := by
  induction elements with
  | nil =>
      intro text suffix rest rest' h hs h'
      obtain rfl := leaves_nil.mp h
      obtain rfl := leaves_nil.mp h'
      exact ⟨_, h', hs.length_le, le_refl _⟩
  | cons element elements ih =>
      intro text suffix rest rest' h hs h'
      by_cases he : element = .star
      · subst he
        rw [leaves_star] at h h'
        obtain ⟨t, ht, h⟩ := h
        obtain ⟨s, hs', h'⟩ := h'
        -- the star can end where the later of the two runs wants it to end
        rcases List.suffix_or_suffix_of_suffix ht (hs'.trans hs) with hts | hst
        · obtain ⟨rest'', hl, h1, h2⟩ := ih h' hts h
          exact ⟨rest'', leaves_star.mpr ⟨t, hts.trans hs', hl⟩, h2, h1⟩
        · obtain ⟨rest'', hl, h1, h2⟩ := ih h hst h'
          exact ⟨rest'', leaves_star.mpr ⟨s, hs', hl⟩, h1, h2⟩
      · cases text with
        | nil => exact absurd h (not_leaves_one_nil he)
        | cons c text =>
            cases suffix with
            | nil => exact absurd h' (not_leaves_one_nil he)
            | cons d suffix =>
                have hs' : suffix <:+ text := by
                  rcases List.suffix_cons_iff.mp hs with e | hs
                  · rw [(List.cons.inj e).2]
                  · exact (List.suffix_cons d suffix).trans hs
                obtain ⟨_, h⟩ := (leaves_one_cons he).mp h
                obtain ⟨hd, h'⟩ := (leaves_one_cons he).mp h'
                obtain ⟨rest'', hl, h1, h2⟩ := ih h hs' h'
                exact ⟨rest'', (leaves_one_cons he).mpr ⟨hd, hl⟩, h1, h2⟩

theorem backtrack_star_cons (elements : List Element) (c : Char) (text : List Char) :
    backtrack (.star :: elements) (c :: text) =
      (backtrack (.star :: elements) text).or (backtrack elements (c :: text)) := by
  rw [backtrack]

theorem backtrack_one_nil {element : Element} (he : element ≠ .star) (elements : List Element) :
    backtrack (element :: elements) [] = none := by
  rw [backtrack]
  exact he

theorem backtrack_one_cons {element : Element} (he : element ≠ .star) (elements : List Element)
    (c : Char) (text : List Char) :
    backtrack (element :: elements) (c :: text) =
      if element.accepts c then backtrack elements text else none := by
  rw [backtrack]
  exact he

/-- **What greedy backtracking finds first is the longest match.** -/
theorem best_backtrack (elements : List Element) : ∀ text : List Char,
    Best (fun rest rest' => rest.length ≤ rest'.length) (Leaves elements text)
      (backtrack elements text) := by
  induction elements with
  | nil =>
      intro text
      rw [backtrack]
      refine ⟨leaves_nil.mpr rfl, fun rest h => ?_⟩
      rw [leaves_nil.mp h]
  | cons element elements ih =>
      intro text
      by_cases he : element = .star
      · subst he
        induction text with
        | nil =>
            rw [backtrack]
            exact (ih []).congr fun rest => leaves_star_nil
        | cons c text iht =>
            rw [backtrack_star_cons]
            cases hb : backtrack (.star :: elements) text with
            | none =>
                rw [hb] at iht
                exact (ih (c :: text)).congr fun rest => by
                  rw [leaves_star_cons, or_iff_left (iht rest)]
            | some rest =>
                rw [hb] at iht
                obtain ⟨hl, hbest⟩ := iht
                refine ⟨leaves_star_cons.mpr (.inr hl), fun rest' h' => ?_⟩
                obtain ⟨rest'', hl'', h1, _⟩ := h'.advance (List.suffix_cons c text) hl
                exact le_trans (hbest rest'' hl'') h1
      · cases text with
        | nil =>
            rw [backtrack_one_nil he]
            exact fun rest => not_leaves_one_nil he
        | cons c text =>
            rw [backtrack_one_cons he]
            split
            · next hc =>
                exact (ih text).congr fun rest => by rw [leaves_one_cons he, and_iff_right hc]
            · next hc => exact fun rest h => hc ((leaves_one_cons he).mp h).1

/-- The entry of a row of longest matches is what greedy backtracking leaves. -/
theorem entry_min_eq_backtrack (elements : List Element) (text : List Char) :
    entry min elements text = (backtrack elements text).map List.length := by
  have hr := best_entry selects_min elements text
  have hb := best_backtrack elements text
  cases he : entry min elements text with
  | none =>
      rw [he] at hr
      cases ht : backtrack elements text with
      | none => rfl
      | some rest =>
          rw [ht] at hb
          exact absurd ⟨rest, hb.1, rfl⟩ (hr rest.length)
  | some n =>
      rw [he] at hr
      obtain ⟨⟨rest, hl, rfl⟩, hmin⟩ := hr
      cases ht : backtrack elements text with
      | none =>
          rw [ht] at hb
          exact absurd hl (hb rest)
      | some rest' =>
          rw [ht] at hb
          exact congrArg some (le_antisymm (hmin _ ⟨rest', hb.1, rfl⟩) (hb.2 rest hl))

/-! ### Searching by backtracking -/

/-- Tries the positions of a text, whose characters begin at `start`, one after the other. -/
def backtrackFrom (elements : List Element) (size start : ℕ) (cs : List Char) : Option Span :=
  match backtrack elements cs with
  | some rest => some ⟨start, size - rest.length⟩
  | none =>
    match cs with
    | [] => none
    | _ :: cs => backtrackFrom elements size (start + 1) cs

/-- The first match at or behind a position of a text. -/
def backtrackSearch (elements : List Element) (cs : List Char) (start : ℕ) : Option Span :=
  if cs.length < start then none else backtrackFrom elements cs.length start (cs.drop start)

theorem firstSpan?_cons (size start : ℕ) (entry : Option ℕ) (row : Row) :
    firstSpan? size start (entry :: row) =
      (entry.map fun left => ⟨start, size - left⟩).or (firstSpan? size (start + 1) row) := by
  cases entry <;> rfl

theorem firstSpan?_longest (elements : List Element) (size : ℕ) (cs : List Char) :
    ∀ start,
      firstSpan? size start (longest elements cs) = backtrackFrom elements size start cs := by
  induction cs with
  | nil =>
      intro start
      rw [longest, remainders_nil, firstSpan?_cons, entry_min_eq_backtrack, backtrackFrom]
      cases backtrack elements [] <;> rfl
  | cons c cs ih =>
      intro start
      rw [longest, remainders_cons, firstSpan?_cons, entry_min_eq_backtrack, backtrackFrom]
      cases backtrack elements (c :: cs) with
      | none => exact ih (start + 1)
      | some rest => rfl

end ShellExpansion.Glob
