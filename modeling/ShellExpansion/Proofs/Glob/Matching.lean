import ShellExpansion.Proofs.Glob.Grammar
import ShellExpansion.Proofs.Glob.Rows

/-! # Matching a whole text

The elements that a pattern is read as take a text exactly when the grammar says that the pattern
matches it (`takes_elements_iff`), and so `isMatch` decides the grammar's relation
(`isMatch_iff_matches`). -/

namespace ShellExpansion.Glob

/-! ### One element at a time -/

theorem elements_nil : elements [] = [] := by rw [elements]

theorem elements_star (pattern : List Char) :
    elements ('*' :: pattern) = .star :: elements pattern := by rw [elements]

theorem elements_backslash : elements ['\\'] = [.literal '\\'] := by
  rw [elements, elements_nil] <;> simp

theorem elements_bracket {inside body pattern : List Char} {negated : Bool}
    (h : Bracket inside negated body pattern) :
    elements ('[' :: inside) = .set negated (setItems body) :: elements pattern := by
  rw [elements]
  split
  · next hb =>
      rw [bracket?_eq_some_iff.mpr h] at hb
      obtain ⟨rfl, rfl, rfl⟩ : negated = _ ∧ body = _ ∧ pattern = _ := by simpa using hb
      rfl
  · next hb => rw [bracket?_eq_some_iff.mpr h] at hb; cases hb

theorem elements_unclosed {pattern : List Char}
    (h : ∀ negated body after, ¬ Bracket pattern negated body after) :
    elements ('[' :: pattern) = .literal '[' :: elements pattern := by
  rw [elements]
  split
  · next hb => rw [bracket?_eq_none_iff.mpr h] at hb; cases hb
  · rfl

theorem elements_literal {c : Char} {pattern : List Char} (hstar : c ≠ '*') (hany : c ≠ '?')
    (hslash : c ≠ '\\') (hbracket : c ≠ '[') :
    elements (c :: pattern) = .literal c :: elements pattern := by
  rw [elements] <;> simp_all

theorem takes_cons_iff {element : Element} {elements : List Element} {text : List Char}
    (he : element ≠ .star) :
    Takes (element :: elements) text ↔
      ∃ c rest, text = c :: rest ∧ element.accepts c = true ∧ Takes elements rest := by
  constructor
  · intro h
    cases h with
    | star => exact absurd rfl he
    | one hc h => exact ⟨_, _, rfl, hc, h⟩
  · rintro ⟨c, rest, rfl, hc, h⟩
    exact .one hc h

theorem takes_star_iff {elements : List Element} {text : List Char} :
    Takes (.star :: elements) text ↔
      ∃ stretch rest, text = stretch ++ rest ∧ Takes elements rest := by
  constructor
  · intro h
    cases h with
    | star stretch h => exact ⟨stretch, _, rfl, h⟩
    | one hc => cases hc
  · rintro ⟨stretch, rest, rfl, h⟩
    exact .star stretch h

/-- A run of stars takes what one star takes. -/
theorem takes_stars_iff {text : List Char} : ∀ pattern : List Char,
    Takes (elements ('*' :: pattern)) text ↔
      ∃ stretch rest, text = stretch ++ rest ∧ Takes (elements (pattern.dropWhile (· == '*'))) rest
  | [] => by rw [elements_star, takes_star_iff, List.dropWhile_nil]
  | c :: pattern => by
      by_cases hc : c = '*'
      · subst hc
        rw [elements_star, takes_star_iff, List.dropWhile_cons_of_pos (by rfl)]
        constructor
        · rintro ⟨first, rest, rfl, h⟩
          obtain ⟨second, rest, rfl, h'⟩ := (takes_stars_iff pattern).mp h
          exact ⟨first ++ second, rest, by rw [List.append_assoc], h'⟩
        · rintro ⟨stretch, rest, rfl, h⟩
          exact ⟨stretch, rest, rfl, (takes_stars_iff pattern).mpr ⟨[], rest, rfl, h⟩⟩
      · rw [elements_star, takes_star_iff, List.dropWhile_cons_of_neg (by simpa using hc)]

theorem accepts_set_iff {negated : Bool} {items : List SetItem} {c : Char} :
    (Element.set negated items).accepts c = true ↔
      ((∃ item ∈ items, item.Has c) ↔ negated = false) := by
  simp only [← SetItem.contains_iff]
  rw [← List.any_eq_true]
  change (items.any (·.contains c) != negated) = true ↔ _
  cases items.any (·.contains c) <;> cases negated <;> decide

/-! ### Patterns and their elements -/

theorem takes_of_matches {pattern text : List Char} (h : Matches pattern text) :
    Takes (elements pattern) text := by
  induction h with
  | nil =>
      rw [elements_nil]
      exact .nil
  | @stars pattern stretch text _ ih => exact (takes_stars_iff pattern).mpr ⟨stretch, text, rfl, ih⟩
  | any c _ ih =>
      rw [elements]
      exact .one rfl ih
  | escaped c _ ih =>
      rw [elements]
      exact .one (beq_self_eq_true c) ih
  | backslash =>
      rw [elements_backslash]
      exact .one rfl .nil
  | bracket hb hp hc _ ih =>
      rw [elements_bracket hb, setItems_of_parts hp]
      exact .one (accepts_set_iff.mpr hc) ih
  | unclosed hb _ ih =>
      rw [elements_unclosed hb]
      exact .one rfl ih
  | @literal _ _ c hstar hany hslash hbracket _ ih =>
      rw [elements_literal hstar hany hslash hbracket]
      exact .one (beq_self_eq_true c) ih

theorem matches_of_takes {pattern text : List Char} (h : Takes (elements pattern) text) :
    Matches pattern text := by
  -- the induction is on the length, since brackets and runs of stars drop several characters
  induction hn : pattern.length using Nat.strong_induction_on generalizing pattern text with
  | _ n ih =>
      subst hn
      fun_cases elements pattern with
      | case1 =>
          rw [elements_nil] at h
          cases h
          exact .nil
      | case2 rest =>
          obtain ⟨stretch, text', rfl, h'⟩ := (takes_stars_iff rest).mp h
          have hle := (List.dropWhile_suffix (l := rest) (· == '*')).length_le
          exact .stars (ih _ (Nat.lt_succ_of_le hle) h' rfl)
      | case3 rest =>
          rw [elements, takes_cons_iff (by simp)] at h
          obtain ⟨c, text', rfl, _, h'⟩ := h
          exact .any c (ih _ (Nat.lt_succ_self _) h' rfl)
      | case4 d rest =>
          rw [elements, takes_cons_iff (by simp)] at h
          obtain ⟨c, text', rfl, hc, h'⟩ := h
          obtain rfl := eq_of_beq hc
          exact .escaped d (ih _ (Nat.lt_succ_of_lt (Nat.lt_succ_self _)) h' rfl)
      | case5 rest negated inside after hb =>
          have hlt := length_lt_of_bracket? hb
          have hb' := bracket?_eq_some_iff.mp hb
          rw [elements_bracket hb', takes_cons_iff (by simp)] at h
          obtain ⟨c, text', rfl, hc, h'⟩ := h
          exact .bracket hb' (parts_setItems inside) (accepts_set_iff.mp hc)
            (ih _ (Nat.lt_succ_of_lt hlt) h' rfl)
      | case6 rest hb =>
          have hb' := bracket?_eq_none_iff.mp hb
          rw [elements_unclosed hb', takes_cons_iff (by simp)] at h
          obtain ⟨c, text', rfl, hc, h'⟩ := h
          obtain rfl := eq_of_beq hc
          exact .unclosed hb' (ih _ (Nat.lt_succ_self _) h' rfl)
      | case7 d rest hstar hany hslash hbracket =>
          by_cases hd : d = '\\'
          · subst hd
            cases rest with
            | nil =>
                rw [elements_backslash, takes_cons_iff (by simp)] at h
                obtain ⟨c, text', rfl, hc, h'⟩ := h
                obtain rfl := eq_of_beq hc
                cases h'
                exact .backslash
            | cons c rest => exact (hslash c rest rfl rfl).elim
          · rw [elements_literal hstar hany hd hbracket, takes_cons_iff (by simp)] at h
            obtain ⟨c, text', rfl, hc, h'⟩ := h
            obtain rfl := eq_of_beq hc
            exact .literal hstar hany hd hbracket (ih _ (Nat.lt_succ_self _) h' rfl)

theorem takes_elements_iff {pattern text : List Char} :
    Takes (elements pattern) text ↔ Matches pattern text :=
  ⟨matches_of_takes, takes_of_matches⟩

/-- **The whole-text test decides the grammar's relation**, for every pattern and every text. -/
theorem isMatch_iff_matches (pattern text : String) :
    isMatch pattern text = true ↔ Matches pattern.toList text.toList := by
  rw [isMatch, matchesList_iff, takes_elements_iff]

/-- A set that is empty takes no character, and its negation takes every one. -/
example : isMatch "[z-a]" "x" = false ∧ isMatch "[!z-a]" "x" = true := by decide +kernel

end ShellExpansion.Glob
