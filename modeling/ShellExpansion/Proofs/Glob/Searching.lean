import ShellExpansion.Proofs.Glob.Backtracking

/-! # Searches agree with matching

An occurrence of a pattern in a text is a span whose text the pattern matches as a whole
(`Occurs`).  Each search finds the preferred one of the occurrences that it admits, and nothing
exactly when it admits none (`searches_find_best_occurrences`): those at the start of the text,
those at its end, or those that begin at or behind a position. -/

namespace ShellExpansion.Glob

/-- The text between two positions. -/
def slice (text : String) (start stop : ℕ) : String :=
  String.ofList ((text.toList.take stop).drop start)

/-- The span lies in the text, and the pattern matches what stands there. -/
def Occurs (pattern text : String) (span : Span) : Prop :=
  span.start ≤ span.stop ∧ span.stop ≤ text.length ∧
    isMatch pattern (slice text span.start span.stop) = true

/-- The first of two occurrences begins further left, or it begins at the same place and does not
end before the second one. -/
def Span.leftmostLongest (a b : Span) : Prop :=
  a.start < b.start ∨ a.start = b.start ∧ b.stop ≤ a.stop

/-! ### Preferred candidates, continued -/

section Best
variable {α β : Type} {le : α → α → Prop} {le' : β → β → Prop}

theorem Best.map {p : α → Prop} {q : β → Prop} {found : Option α} (h : Best le p found)
    (f : α → β) (hq : ∀ b, q b ↔ ∃ a, p a ∧ f a = b)
    (hle : ∀ a b, p a → p b → le a b → le' (f a) (f b)) : Best le' q (found.map f) := by
  cases found with
  | none =>
      intro b hb
      obtain ⟨a, ha, _⟩ := (hq b).mp hb
      exact h a ha
  | some a =>
      obtain ⟨ha, hbest⟩ := h
      refine ⟨(hq _).mpr ⟨a, ha, rfl⟩, fun b hb => ?_⟩
      obtain ⟨a', ha', rfl⟩ := (hq b).mp hb
      exact hle a a' ha ha' (hbest a' ha')

theorem Best.or {p q : α → Prop} {a b : Option α} (ha : Best le p a) (hb : Best le q b)
    (hpq : ∀ x y, p x → q y → le x y) : Best le (fun x => p x ∨ q x) (a.or b) := by
  cases a with
  | none => exact hb.congr fun x => or_iff_right (ha x)
  | some x =>
      obtain ⟨hx, hbest⟩ := ha
      refine ⟨.inl hx, fun y hy => ?_⟩
      rcases hy with hy | hy
      · exact hbest y hy
      · exact hpq x y hx hy

variable (le) in
theorem best_head? (hrefl : ∀ a, le a a) {l : List α} (h : l.Pairwise le) :
    Best le (· ∈ l) l.head? := by
  cases h with
  | nil => exact fun a ha => by cases ha
  | @cons a l hl _ =>
      refine ⟨List.mem_cons_self, fun b hb => ?_⟩
      rcases List.mem_cons.mp hb with rfl | hb
      · exact hrefl b
      · exact hl b hb

variable (le) in
theorem best_getLast? (hrefl : ∀ a, le a a) {l : List α} (h : l.Pairwise fun a b => le b a) :
    Best le (· ∈ l) l.getLast? := by
  rw [← List.head?_reverse]
  exact (best_head? le hrefl (List.pairwise_reverse.mpr h)).congr fun a => List.mem_reverse.symm

end Best

/-! ### Occurrences and rows -/

variable {pattern text : String}

theorem takes_slice_iff {elements : List Element} {cs : List Char} {start stop : ℕ}
    (hle : start ≤ stop) (hstop : stop ≤ cs.length) :
    Takes elements ((cs.take stop).drop start) ↔
      Leaves elements (cs.drop start) (cs.drop stop) := by
  have e : cs.drop start = (cs.take stop).drop start ++ cs.drop stop := by
    conv_lhs => rw [← List.take_append_drop stop cs]
    rw [List.drop_append_of_le_length]
    rw [List.length_take]
    omega
  constructor
  · intro h
    exact ⟨_, e, h⟩
  · rintro ⟨piece, hp, h⟩
    rwa [List.append_cancel_right (e.symm.trans hp)]

theorem occurs_iff {span : Span} :
    Occurs pattern text span ↔ span.start ≤ span.stop ∧ span.stop ≤ text.length ∧
      Leaves (elements pattern.toList) (text.toList.drop span.start)
        (text.toList.drop span.stop) := by
  unfold Occurs
  refine and_congr_right fun hle => and_congr_right fun hstop => ?_
  rw [← String.length_toList] at hstop
  rw [isMatch, matchesList_iff, slice, String.toList_ofList, takes_slice_iff hle hstop]

/-- The occurrences that begin at a position, counted by what they leave. -/
theorem occurs_at_iff {start : ℕ} (hs : start ≤ text.length) (span : Span) :
    Occurs pattern text span ∧ span.start = start ↔
      ∃ n, LeavesCount (elements pattern.toList) (text.toList.drop start) n ∧
        (⟨start, text.length - n⟩ : Span) = span := by
  rw [occurs_iff]
  constructor
  · rintro ⟨⟨hle, hstop, h⟩, rfl⟩
    refine ⟨text.length - span.stop, ⟨_, h, ?_⟩, ?_⟩
    · rw [List.length_drop, String.length_toList]
    · rw [Nat.sub_sub_self hstop]
  · rintro ⟨n, ⟨rest, h, rfl⟩, rfl⟩
    have hsuffix : rest <:+ text.toList.drop start := by
      obtain ⟨piece, hp, _⟩ := h
      exact ⟨piece, hp.symm⟩
    have hlen : rest.length ≤ text.length - start := by
      have := hsuffix.length_le
      rwa [List.length_drop, String.length_toList] at this
    have hrest : text.toList.drop (text.length - rest.length) = rest := by
      have := List.suffix_iff_eq_drop.mp (hsuffix.trans (List.drop_suffix start text.toList))
      rw [String.length_toList] at this
      exact this.symm
    refine ⟨⟨?_, Nat.sub_le _ _, ?_⟩, rfl⟩
    · dsimp only
      omega
    · rw [hrest]
      exact h

/-! ### The start of the text -/

theorem prefixSpan?_eq (greedy : Bool) :
    prefixSpan? pattern text greedy =
      (entry (if greedy then min else max) (elements pattern.toList) text.toList).map
        fun left => ⟨0, text.length - left⟩ := by
  cases greedy <;> rfl

theorem best_prefixSpan? (greedy : Bool) :
    Best (fun a b => if greedy then b.stop ≤ a.stop else a.stop ≤ b.stop)
      (fun span => Occurs pattern text span ∧ span.start = 0)
      (prefixSpan? pattern text greedy) := by
  have hq := @occurs_at_iff pattern text 0 (Nat.zero_le _)
  rw [List.drop_zero] at hq
  rw [prefixSpan?_eq]
  cases greedy with
  | true =>
      refine (best_entry selects_min _ _).map _ hq fun m n _ _ h => ?_
      exact Nat.sub_le_sub_left h _
  | false =>
      refine (best_entry selects_max _ _).map _ hq fun m n _ _ h => ?_
      exact Nat.sub_le_sub_left h _

/-! ### The end of the text -/

/-- The positions from which the elements match to the end of the text, from left to right. -/
def suffixStarts (row : Row) : List ℕ :=
  row.zipIdx.filterMap fun entry => if entry.1 = some 0 then some entry.2 else none

theorem suffixSpan?_eq (greedy : Bool) :
    suffixSpan? pattern text greedy =
      (if greedy then (suffixStarts (longest (elements pattern.toList) text.toList)).head?
        else (suffixStarts (longest (elements pattern.toList) text.toList)).getLast?).map
        fun start => ⟨start, text.length⟩ := rfl

theorem pairwise_suffixStarts (row : Row) : (suffixStarts row).Pairwise (· < ·) := by
  have h : row.zipIdx.Pairwise fun a b => a.2 < b.2 := by
    rw [← List.pairwise_map, List.zipIdx_map_snd]
    exact List.pairwise_lt_range'
  refine List.Pairwise.filterMap _ (fun a b hab x hx y hy => ?_) h
  split at hx <;> cases hx
  split at hy <;> cases hy
  exact hab

theorem entry_min_eq_zero_iff {elements : List Element} {cs : List Char} :
    entry min elements cs = some 0 ↔ Takes elements cs := by
  rw [← matchesList_iff, matchesList, beq_iff_eq]
  rfl

theorem mem_suffixStarts_iff {start : ℕ} :
    start ∈ suffixStarts (longest (elements pattern.toList) text.toList) ↔
      Occurs pattern text ⟨start, text.length⟩ := by
  have hmem : start ∈ suffixStarts (longest (elements pattern.toList) text.toList) ↔
      (longest (elements pattern.toList) text.toList)[start]? = some (some 0) := by
    simp [suffixStarts, List.mk_mem_zipIdx_iff_getElem?]
  rw [hmem, occurs_iff, List.getElem?_eq_some_iff]
  simp only [longest, length_remainders, getElem_remainders, entry_min_eq_zero_iff,
    String.length_toList, le_refl, true_and, exists_prop]
  refine and_congr Nat.lt_succ_iff ?_
  rw [← String.length_toList, List.drop_length, leaves_nil_right]

theorem best_suffixSpan? (greedy : Bool) :
    Best (fun a b => if greedy then a.start ≤ b.start else b.start ≤ a.start)
      (fun span => Occurs pattern text span ∧ span.stop = text.length)
      (suffixSpan? pattern text greedy) := by
  have hq : ∀ span, Occurs pattern text span ∧ span.stop = text.length ↔
      ∃ start, start ∈ suffixStarts (longest (elements pattern.toList) text.toList) ∧
        (⟨start, text.length⟩ : Span) = span := by
    intro span
    constructor
    · rintro ⟨h, hstop⟩
      have e : (⟨span.start, text.length⟩ : Span) = span := by rw [← hstop]
      exact ⟨span.start, mem_suffixStarts_iff.mpr (e ▸ h), e⟩
    · rintro ⟨start, h, rfl⟩
      exact ⟨mem_suffixStarts_iff.mp h, rfl⟩
  have hp := pairwise_suffixStarts (longest (elements pattern.toList) text.toList)
  rw [suffixSpan?_eq]
  cases greedy with
  | true => exact (best_head? (· ≤ ·) le_refl (hp.imp le_of_lt)).map _ hq fun _ _ _ _ h => h
  | false => exact (best_getLast? (· ≥ ·) le_refl (hp.imp le_of_lt)).map _ hq fun _ _ _ _ h => h

/-! ### Behind a position -/

/-- Nothing occurs behind the end of the text. -/
theorem best_firstSpan?_of_lt {start : ℕ} (hlt : text.length < start) :
    Best Span.leftmostLongest (fun span => Occurs pattern text span ∧ start ≤ span.start)
      (firstSpan? text.length start
        ((longest (elements pattern.toList) text.toList).drop start)) := by
  have hlen : (longest (elements pattern.toList) text.toList).length ≤ start := by
    rw [longest, length_remainders, String.length_toList]
    omega
  rw [List.drop_of_length_le hlen]
  rintro span ⟨⟨hle, hstop, _⟩, hs⟩
  omega

theorem best_entry_at {start : ℕ} (hs : start ≤ text.length) :
    Best Span.leftmostLongest (fun span => Occurs pattern text span ∧ span.start = start)
      ((entry min (elements pattern.toList) (text.toList.drop start)).map
        fun left => ⟨start, text.length - left⟩) :=
  (best_entry selects_min _ _).map _ (occurs_at_iff hs)
    fun _ _ _ _ h => .inr ⟨rfl, Nat.sub_le_sub_left h _⟩

/-- The positions are tried from left to right: what is found at `start` comes before all that
is found further right. -/
theorem best_firstSpan? : ∀ (count start : ℕ), text.length < start + count →
    Best Span.leftmostLongest (fun span => Occurs pattern text span ∧ start ≤ span.start)
      (firstSpan? text.length start
        ((longest (elements pattern.toList) text.toList).drop start)) := by
  intro count
  induction count with
  | zero => exact fun start hlt => best_firstSpan?_of_lt hlt
  | succ count ih =>
      intro start hlt
      by_cases hs : start ≤ text.length
      · have hlen : start < (longest (elements pattern.toList) text.toList).length := by
          rw [longest, length_remainders, String.length_toList]
          omega
        have hentry : (longest (elements pattern.toList) text.toList)[start] =
            entry min (elements pattern.toList) (text.toList.drop start) :=
          getElem_remainders _ _ start hlen
        rw [List.drop_eq_getElem_cons hlen, firstSpan?_cons, hentry]
        refine ((best_entry_at hs).or (ih (start + 1) (by omega)) ?_).congr fun span => ?_
        · rintro a b ⟨_, ha⟩ ⟨_, hb⟩
          exact .inl (by omega)
        · rw [← and_or_left]
          refine and_congr_right fun _ => ?_
          omega
      · exact best_firstSpan?_of_lt (by omega)

theorem best_search (start : ℕ) :
    Best Span.leftmostLongest (fun span => Occurs pattern text span ∧ start ≤ span.start)
      (search pattern text start) :=
  best_firstSpan? (text.length + 1) start (by omega)

/-! ### The searches -/

theorem prefixSpan?_true_eq_backtrack :
    prefixSpan? pattern text true =
      (backtrack (elements pattern.toList) text.toList).map
        fun rest => ⟨0, text.length - rest.length⟩ := by
  rw [prefixSpan?_eq, if_pos rfl, entry_min_eq_backtrack, Option.map_map]
  rfl

theorem search_eq_backtrackSearch (start : ℕ) :
    search pattern text start = backtrackSearch (elements pattern.toList) text.toList start := by
  rw [search, backtrackSearch, String.length_toList]
  split
  · next hlt =>
      rw [List.drop_of_length_le]
      · rfl
      · rw [longest, length_remainders, String.length_toList]
        omega
  · next hle =>
      rw [← firstSpan?_longest, longest, longest, drop_remainders]
      rw [String.length_toList]
      omega

variable (pattern text)

/-- **The four searches agree with the whole-text test.**  Each finds the preferred one of the
occurrences that it admits, and nothing exactly when there is none: the longest or shortest one
at the start of the text, the longest or shortest one at its end, and the leftmost one at or
behind a position, which is the longest one there.  Whether there is one does not depend on the
preference.  Where the longest match is wanted, it is also the one that greedy backtracking finds
first. -/
theorem searches_find_best_occurrences :
    (∀ greedy, Best (fun a b => if greedy then b.stop ≤ a.stop else a.stop ≤ b.stop)
      (fun span => Occurs pattern text span ∧ span.start = 0)
      (prefixSpan? pattern text greedy)) ∧
    (∀ greedy, Best (fun a b => if greedy then a.start ≤ b.start else b.start ≤ a.start)
      (fun span => Occurs pattern text span ∧ span.stop = text.length)
      (suffixSpan? pattern text greedy)) ∧
    (∀ start, Best Span.leftmostLongest
      (fun span => Occurs pattern text span ∧ start ≤ span.start)
      (search pattern text start)) ∧
    (prefixSpan? pattern text true).isSome = (prefixSpan? pattern text false).isSome ∧
    (suffixSpan? pattern text true).isSome = (suffixSpan? pattern text false).isSome ∧
    prefixSpan? pattern text true =
      (backtrack (elements pattern.toList) text.toList).map
        (fun rest => ⟨0, text.length - rest.length⟩) ∧
    (∀ start, search pattern text start =
      backtrackSearch (elements pattern.toList) text.toList start) := by
  refine ⟨best_prefixSpan?, best_suffixSpan?, best_search, ?_, ?_, prefixSpan?_true_eq_backtrack,
    search_eq_backtrackSearch⟩
  · rw [Bool.eq_iff_iff, (best_prefixSpan? true).isSome_iff, (best_prefixSpan? false).isSome_iff]
  · rw [Bool.eq_iff_iff, (best_suffixSpan? true).isSome_iff, (best_suffixSpan? false).isSome_iff]

end ShellExpansion.Glob
