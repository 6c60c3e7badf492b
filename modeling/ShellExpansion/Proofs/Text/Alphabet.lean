import ShellExpansion.Text.Alphabet

/-! # Letters and digits

The letters of ASCII are two ranges of code points (`isUpper_iff_toNat`, `isLower_iff_toNat`).  On
ASCII the classes of characters are the usual ones (`isLetter_of_ascii`, `isDigit_of_ascii`,
`isAlphanumeric_of_ascii`), since all ranges of the tables lie above it.  No character is both a
letter and a digit (`isDigit_eq_false_of_isLetter`): the ranges of the letters, those of ASCII
included, have no code point in common with those of the digits.  Neither have the blanks with
either of them (`isBlank_eq_false_of_isAlphanumeric`, `isBlank_eq_false_of_isDigit`). -/

namespace ShellExpansion.Text

theorem inRanges_iff {ranges : List (Nat × Nat)} {c : Char} :
    inRanges ranges c = true ↔ ∃ range ∈ ranges, range.1 ≤ c.toNat ∧ c.toNat ≤ range.2 := by
  simp [inRanges]

/-! ### ASCII -/

theorem isUpper_iff_toNat {c : Char} :
    c.isUpper = true ↔ 'A'.toNat ≤ c.toNat ∧ c.toNat ≤ 'Z'.toNat :=
  decide_eq_true_iff.trans (and_congr UInt32.le_iff_toNat_le UInt32.le_iff_toNat_le)

theorem isLower_iff_toNat {c : Char} :
    c.isLower = true ↔ 'a'.toNat ≤ c.toNat ∧ c.toNat ≤ 'z'.toNat := by
  show (decide _ && decide _) = true ↔ _
  rw [Bool.and_eq_true, decide_eq_true_iff, decide_eq_true_iff]
  exact and_congr UInt32.le_iff_toNat_le UInt32.le_iff_toNat_le

theorem isAlpha_iff {c : Char} : c.isAlpha = true ↔ c.isUpper = true ∨ c.isLower = true :=
  Bool.or_eq_true_iff

theorem isAlphanum_iff {c : Char} : c.isAlphanum = true ↔ c.isAlpha = true ∨ c.isDigit = true :=
  Bool.or_eq_true_iff

theorem toNat_of_isAlphanum {c : Char} (h : c.isAlphanum = true) :
    48 ≤ c.toNat ∧ c.toNat < 128 := by
  simp only [isAlphanum_iff, isAlpha_iff, isUpper_iff_toNat, isLower_iff_toNat,
    Char.isDigit_iff_toNat, Char.reduceToNat] at h
  omega

/-- All ranges lie above ASCII. -/
def aboveAscii (ranges : List (Nat × Nat)) : Bool := ranges.all fun range => Nat.ble 128 range.1

theorem inRanges_eq_false {ranges : List (Nat × Nat)} {c : Char} (hc : c.toNat < 128)
    (h : aboveAscii ranges = true) : inRanges ranges c = false := by
  refine Bool.eq_false_iff.mpr fun hranges => ?_
  obtain ⟨range, hmem, hlow, _⟩ := inRanges_iff.mp hranges
  have habove := Nat.le_of_ble_eq_true (List.all_eq_true.mp h range hmem)
  omega

theorem aboveAscii_tables : aboveAscii letterRanges = true ∧ aboveAscii digitSignRanges = true ∧
    aboveAscii numberSignRanges = true ∧ decimalZeros.all (Nat.ble 128) = true := by
  decide +kernel

theorem isLetter_of_ascii {c : Char} (hc : c.toNat < 128) : isLetter c = c.isAlpha := by
  unfold isLetter
  rw [inRanges_eq_false hc aboveAscii_tables.1, Bool.or_false]

theorem decimalValue?_of_ascii {c : Char} (hc : c.toNat < 128) :
    decimalValue? c = if c.isDigit then some (c.toNat - '0'.toNat) else none := by
  have hfind : decimalZeros.find? (fun z => z ≤ c.toNat && c.toNat < z + 10) = none := by
    refine List.find?_eq_none.mpr fun z hz => ?_
    have hlow := Nat.le_of_ble_eq_true (List.all_eq_true.mp aboveAscii_tables.2.2.2 z hz)
    simp only [Bool.and_eq_true, decide_eq_true_eq]
    omega
  unfold decimalValue?
  rw [hfind]
  rfl

theorem isDigit_of_ascii {c : Char} (hc : c.toNat < 128) : isDigit c = c.isDigit := by
  unfold isDigit
  rw [inRanges_eq_false hc aboveAscii_tables.2.1, Bool.or_false, decimalValue?_of_ascii hc]
  cases c.isDigit <;> rfl

theorem isAlphanumeric_of_ascii {c : Char} (hc : c.toNat < 128) :
    isAlphanumeric c = c.isAlphanum := by
  unfold isAlphanumeric
  rw [inRanges_eq_false hc aboveAscii_tables.1, inRanges_eq_false hc aboveAscii_tables.2.2.1,
    Bool.or_false, Bool.or_false]
  rfl

/-! ### Ranges that lie apart -/

/-- The ranges begin in ascending order. -/
def ascending : List (Nat × Nat) → Bool
  | range :: next :: rest => Nat.ble range.1 next.1 && ascending (next :: rest)
  | _ => true

theorem pairwise_of_ascending : ∀ {ranges : List (Nat × Nat)}, ascending ranges = true →
    ranges.Pairwise fun range later => range.1 ≤ later.1
  | [], _ => .nil
  | [range], _ => List.pairwise_singleton _ range
  | range :: next :: rest, h => by
      obtain ⟨hle, hrest⟩ := Bool.and_eq_true_iff.mp h
      have hle := Nat.le_of_ble_eq_true hle
      have ih := pairwise_of_ascending hrest
      refine List.pairwise_cons.mpr ⟨fun later hlater => ?_, ih⟩
      rcases List.mem_cons.mp hlater with rfl | hmem
      · exact hle
      · exact Nat.le_trans hle ((List.pairwise_cons.mp ih).1 later hmem)

/-- No range of one ascending list meets a range of the other.  Both lists are passed through only
once: the ranges of the second list that end before a range of the first are left behind. -/
def apart : List (Nat × Nat) → List (Nat × Nat) → Bool
  | [], _ => true
  | range :: ranges, others =>
    let later := others.dropWhile fun other => Nat.blt other.2 range.1
    (later.head?.all fun other => Nat.blt range.2 other.1) && apart ranges later

theorem apart_spec {ranges others : List (Nat × Nat)}
    (hranges : ranges.Pairwise fun range later => range.1 ≤ later.1)
    (hothers : others.Pairwise fun other later => other.1 ≤ later.1)
    (h : apart ranges others = true) :
    ∀ range ∈ ranges, ∀ other ∈ others, range.2 < other.1 ∨ other.2 < range.1 := by
  induction ranges generalizing others with
  | nil =>
      intro range hrange
      cases hrange
  | cons first ranges ih =>
      obtain ⟨hhead, hrest⟩ := Bool.and_eq_true_iff.mp h
      obtain ⟨hfirst, hranges⟩ := List.pairwise_cons.mp hranges
      have hsplit := List.takeWhile_append_dropWhile
        (p := fun other : Nat × Nat => Nat.blt other.2 first.1) (l := others)
      generalize hl : others.dropWhile (fun other => Nat.blt other.2 first.1) = later
        at hhead hrest hsplit
      have hlater : later.Pairwise fun range next => range.1 ≤ next.1 := by
        rw [← hl]
        exact hothers.sublist (List.dropWhile_sublist _)
      intro range hrange other hother
      rw [← hsplit] at hother
      rcases List.mem_append.mp hother with hbefore | hbehind
      · have hlt := List.all_eq_true.mp List.all_takeWhile other hbefore
        rw [Nat.blt_eq] at hlt
        rcases List.mem_cons.mp hrange with rfl | hrange
        · exact .inr hlt
        · exact .inr (Nat.lt_of_lt_of_le hlt (hfirst range hrange))
      · rcases List.mem_cons.mp hrange with rfl | hrange
        · cases later with
          | nil => cases hbehind
          | cons next later =>
              have hlt := Nat.blt_eq.mp hhead
              rcases List.mem_cons.mp hbehind with rfl | hmem
              · exact .inl hlt
              · exact .inl (Nat.lt_of_lt_of_le hlt ((List.pairwise_cons.mp hlater).1 other hmem))
        · exact ih hranges hlater hrest range hrange other hbehind

/-! ### Letters are no digits -/

/-- The letters, those of ASCII included. -/
def allLetterRanges : List (Nat × Nat) := (0x41, 0x5a) :: (0x61, 0x7a) :: letterRanges

/-- The digits of decimal systems, those of ASCII included. -/
def decimalRanges : List (Nat × Nat) := (0x30, 0x39) :: decimalZeros.map fun z => (z, z + 9)

theorem apart_tables : ascending allLetterRanges = true ∧
    (ascending decimalRanges = true ∧ apart allLetterRanges decimalRanges = true) ∧
    (ascending digitSignRanges = true ∧ apart allLetterRanges digitSignRanges = true) := by
  decide +kernel

theorem inRanges_of_isLetter {c : Char} (h : isLetter c = true) :
    inRanges allLetterRanges c = true := by
  rw [inRanges_iff]
  rcases Bool.or_eq_true_iff.mp h with hascii | htable
  · rcases Bool.or_eq_true_iff.mp hascii with hupper | hlower
    · have hbounds : 'A'.val ≤ c.val ∧ c.val ≤ 'Z'.val := of_decide_eq_true hupper
      rw [UInt32.le_iff_toNat_le, UInt32.le_iff_toNat_le] at hbounds
      exact ⟨_, List.mem_cons_self, hbounds⟩
    · have hbounds := Bool.and_eq_true_iff.mp hlower
      rw [decide_eq_true_eq, decide_eq_true_eq, ge_iff_le, UInt32.le_iff_toNat_le,
        UInt32.le_iff_toNat_le] at hbounds
      exact ⟨_, List.mem_cons_of_mem _ List.mem_cons_self, hbounds⟩
  · obtain ⟨range, hrange, hc⟩ := inRanges_iff.mp htable
    exact ⟨range, List.mem_cons_of_mem _ (List.mem_cons_of_mem _ hrange), hc⟩

theorem inRanges_of_decimalValue? {c : Char} (h : (decimalValue? c).isSome = true) :
    inRanges decimalRanges c = true := by
  rw [inRanges_iff]
  unfold decimalValue? at h
  split at h
  · next hascii =>
      simp only [Char.isDigit, Bool.and_eq_true, decide_eq_true_eq, ge_iff_le,
        UInt32.le_iff_toNat_le] at hascii
      exact ⟨_, List.mem_cons_self, hascii⟩
  · obtain ⟨value, hvalue⟩ := Option.isSome_iff_exists.mp h
    obtain ⟨z, hz, _⟩ := Option.map_eq_some_iff.mp hvalue
    have hmem := List.mem_of_find?_eq_some hz
    have hbounds := List.find?_some hz
    simp only [Bool.and_eq_true, decide_eq_true_eq] at hbounds
    refine ⟨(z, z + 9), ?_, hbounds.1, by omega⟩
    exact List.mem_cons_of_mem _ (List.mem_map_of_mem hmem)

theorem inRanges_eq_false_of_apart {ranges others : List (Nat × Nat)} {c : Char}
    (hranges : ascending ranges = true) (hothers : ascending others = true)
    (h : apart ranges others = true) (hc : inRanges ranges c = true) :
    inRanges others c = false := by
  refine Bool.eq_false_iff.mpr fun hother => ?_
  obtain ⟨range, hrange, hlow, hhigh⟩ := inRanges_iff.mp hc
  obtain ⟨other, hmem, hlow', hhigh'⟩ := inRanges_iff.mp hother
  have hapart := apart_spec (pairwise_of_ascending hranges) (pairwise_of_ascending hothers) h
    range hrange other hmem
  omega

/-- **No letter is a digit.** -/
theorem isDigit_eq_false_of_isLetter {c : Char} (h : isLetter c = true) : isDigit c = false := by
  have hletter := inRanges_of_isLetter h
  obtain ⟨hletters, ⟨hdecimals, hdecimal⟩, ⟨hsigns, hsign⟩⟩ := apart_tables
  have hdecimal := inRanges_eq_false_of_apart hletters hdecimals hdecimal hletter
  have hsign := inRanges_eq_false_of_apart hletters hsigns hsign hletter
  have hvalue : (decimalValue? c).isSome = false := by
    refine Bool.eq_false_iff.mpr fun hsome => ?_
    rw [inRanges_of_decimalValue? hsome] at hdecimal
    cases hdecimal
  unfold isDigit
  rw [hvalue, hsign, Bool.or_false]

/-! ### Letters and digits are no blanks -/

theorem apart_blanks : ascending blankRanges = true ∧
    apart allLetterRanges blankRanges = true ∧ apart decimalRanges blankRanges = true ∧
    apart digitSignRanges blankRanges = true ∧
    ascending numberSignRanges = true ∧ apart numberSignRanges blankRanges = true := by
  decide +kernel

theorem isBlank_eq_false_of_isDigit {c : Char} (h : isDigit c = true) : isBlank c = false := by
  obtain ⟨-, ⟨hdecimals, -⟩, ⟨hsigns, -⟩⟩ := apart_tables
  obtain ⟨hblanks, -, hdecimal, hsign, -⟩ := apart_blanks
  rcases Bool.or_eq_true_iff.mp h with hvalue | htable
  · exact inRanges_eq_false_of_apart hdecimals hblanks hdecimal (inRanges_of_decimalValue? hvalue)
  · exact inRanges_eq_false_of_apart hsigns hblanks hsign htable

theorem isBlank_eq_false_of_isAlphanumeric {c : Char} (h : isAlphanumeric c = true) :
    isBlank c = false := by
  obtain ⟨hletters, -⟩ := apart_tables
  obtain ⟨hblanks, hletter, -, -, hsigns, hsign⟩ := apart_blanks
  have hcases : isLetter c = true ∨ isDigit c = true ∨ inRanges numberSignRanges c = true := by
    simp only [isAlphanumeric, Bool.or_eq_true] at h
    rcases h with ((halpha | hdigit) | hletter) | hsign
    · exact .inl (Bool.or_eq_true_iff.mpr (.inl halpha))
    · refine .inr (.inl (Bool.or_eq_true_iff.mpr (.inl ?_)))
      rw [decimalValue?, if_pos hdigit, Option.isSome_some]
    · exact .inl (Bool.or_eq_true_iff.mpr (.inr hletter))
    · exact .inr (.inr hsign)
  rcases hcases with hc | hc | hc
  · exact inRanges_eq_false_of_apart hletters hblanks hletter (inRanges_of_isLetter hc)
  · exact isBlank_eq_false_of_isDigit hc
  · exact inRanges_eq_false_of_apart hsigns hblanks hsign hc

end ShellExpansion.Text
