import ShellExpansion.Proofs.Glob.Searching

/-! # Matches from left to right

The matches of a pattern in a text tile the text (`IsTiling`): each is the longest one where it
begins, they follow each other without overlapping, no empty one stands where another ends, and no
match begins in the gaps between them, except for an empty one at the end of the last match.

The matches are those that a scan finds (`Scan`), which searches for one match after the other and
goes on behind it.  Each turn of a scan keeps what is found so far a tiling of the text that is
passed (`Scan.Tiles.take`), and brings the scan further, so that every scan comes to its end
(`Scan.exists_end`).  `searchAll` reads the same matches off a row
(`Scan.found_append_remaining_take`). -/

namespace ShellExpansion.Glob

/-! ### Tilings -/

/-- The span ends before the other one begins, or where it does if the other one is not empty. -/
structure Span.Before (a b : Span) : Prop where
  start_lt : a.start < b.start
  stop_le : a.stop ≤ b.start
  stop_ne : b.start = b.stop → a.stop ≠ b.start

/-- The position lies before the first span, behind the last one, or between two of them. -/
def IsGap (spans : List Span) (position : ℕ) : Prop :=
  ∀ span ∈ spans, position < span.start ∨ span.stop ≤ position

/-- The spans are the matches that begin below a position, from left to right. -/
structure TilesBelow (pattern text : String) (limit : ℕ) (spans : List Span) : Prop where
  /-- The pattern matches each span. -/
  occurs : ∀ span ∈ spans, Occurs pattern text span
  /-- No match that begins where a span begins is longer. -/
  longest : ∀ span ∈ spans, ∀ other, Occurs pattern text other → other.start = span.start →
    other.stop ≤ span.stop
  ordered : spans.Pairwise Span.Before
  below : ∀ span ∈ spans, span.start < limit ∧ span.stop ≤ limit
  /-- Nothing is missed: what begins in a gap is empty, and a span ends there. -/
  complete : ∀ position < limit, IsGap spans position → ∀ stop,
    Occurs pattern text ⟨position, stop⟩ → stop = position ∧ ∃ span ∈ spans, span.stop = position

/-- The spans are all matches from left to right, up to the one that is empty at the end of the
text. -/
def IsTiling (pattern text : String) (spans : List Span) : Prop :=
  TilesBelow pattern text (text.length + 1) spans

variable {pattern text : String} {limit limit' : ℕ} {spans : List Span} {span : Span}

theorem TilesBelow.nil : TilesBelow pattern text 0 [] where
  occurs _ h := absurd h List.not_mem_nil
  longest _ h := absurd h List.not_mem_nil
  ordered := .nil
  below _ h := absurd h List.not_mem_nil
  complete _ h := absurd h (Nat.not_lt_zero _)

theorem Occurs.within (h : Occurs pattern text span) :
    span.start ≤ span.stop ∧ span.stop ≤ text.length := ⟨h.1, h.2.1⟩

/-- Where nothing begins, a tiling goes on. -/
theorem TilesBelow.mono (h : TilesBelow pattern text limit spans) (hle : limit ≤ limit')
    (hnone : ∀ position, limit ≤ position → position < limit' → ∀ stop,
      Occurs pattern text ⟨position, stop⟩ →
        stop = position ∧ ∃ span ∈ spans, span.stop = position) :
    TilesBelow pattern text limit' spans where
  occurs := h.occurs
  longest := h.longest
  ordered := h.ordered
  below f hf := ⟨lt_of_lt_of_le (h.below f hf).1 hle, le_trans (h.below f hf).2 hle⟩
  complete position hposition hgap stop hoccurs := by
    rcases Nat.lt_or_ge position limit with hlt | hge
    · exact h.complete position hlt hgap stop hoccurs
    · exact hnone position hge hposition stop hoccurs

/-- The leftmost of the matches behind a position is the longest one where it begins. -/
theorem longest_of_best
    (hbest : Best Span.leftmostLongest (fun span => Occurs pattern text span ∧ limit ≤ span.start)
      (some span)) {other : Span} (hother : Occurs pattern text other)
    (hstart : other.start = span.start) : other.stop ≤ span.stop := by
  obtain ⟨⟨-, hbehind⟩, hpreferred⟩ := hbest
  rcases hpreferred other ⟨hother, hstart ▸ hbehind⟩ with hlt | ⟨-, hle⟩
  · omega
  · exact hle

/-- The next match goes on a tiling, up to its end, or past its start if it is empty. -/
theorem TilesBelow.concat (h : TilesBelow pattern text limit spans)
    (hbest : Best Span.leftmostLongest (fun span => Occurs pattern text span ∧ limit ≤ span.start)
      (some span))
    (hapart : span.start = span.stop → ∀ f ∈ spans, f.stop ≠ span.start)
    (hstart : span.start < limit') (hstop : span.stop ≤ limit')
    (hwithin : ∀ position < limit', span.start < position → position < span.stop) :
    TilesBelow pattern text limit' (spans ++ [span]) where
  occurs := List.forall_mem_append.mpr ⟨h.occurs, List.forall_mem_singleton.mpr hbest.1.1⟩
  longest := List.forall_mem_append.mpr
    ⟨h.longest, List.forall_mem_singleton.mpr fun _ => longest_of_best hbest⟩
  ordered := by
    refine List.pairwise_append.mpr ⟨h.ordered, List.pairwise_singleton _ _, fun f hf g hg => ?_⟩
    obtain rfl := List.mem_singleton.mp hg
    have hbelow := h.below f hf
    have hbehind := hbest.1.2
    exact ⟨by omega, by omega, fun hempty => hapart hempty f hf⟩
  below := by
    refine List.forall_mem_append.mpr ⟨fun f hf => ?_, List.forall_mem_singleton.mpr ⟨hstart, hstop⟩⟩
    have hbelow := h.below f hf
    have hbehind := hbest.1.2
    exact ⟨by omega, by omega⟩
  complete position hposition hgap stop hoccurs := by
    obtain ⟨hgap, hspan⟩ := List.forall_mem_append.mp hgap
    have hspan := List.forall_mem_singleton.mp hspan
    have hordered := hbest.1.1.within
    rcases Nat.lt_or_ge position limit with hlt | hge
    · obtain ⟨hempty, f, hf, hend⟩ := h.complete position hlt hgap stop hoccurs
      exact ⟨hempty, f, List.mem_append_left _ hf, hend⟩
    -- behind the old limit, what begins in a gap begins where the new span is, which is then empty
    · have hleft := hbest.2 ⟨position, stop⟩ ⟨hoccurs, hge⟩
      have hinside := hwithin position hposition
      obtain rfl : position = span.start := by
        unfold Span.leftmostLongest at hleft
        dsimp only at hleft
        omega
      have hshort : stop ≤ span.stop := longest_of_best hbest hoccurs rfl
      have hself : span.start ≤ stop := hoccurs.within.1
      exact ⟨by omega, span, List.mem_append_right _ (List.mem_singleton_self span), by omega⟩

/-- Only the last span can end at or behind the limit. -/
theorem TilesBelow.stop_ne (h : TilesBelow pattern text limit spans) {position : ℕ}
    (hle : limit ≤ position) (hlast : spans.getLast?.map Span.stop ≠ some position) :
    ∀ f ∈ spans, f.stop ≠ position := by
  rcases List.eq_nil_or_concat spans with rfl | ⟨front, last, rfl⟩
  · exact fun f hf => absurd hf List.not_mem_nil
  · have hbelow := (h.below last (by simp)).1
    have hordered := h.ordered
    rw [List.concat_eq_append] at hordered ⊢
    replace hordered := (List.pairwise_append.mp hordered).2.2
    refine List.forall_mem_append.mpr ⟨fun f hf => ?_, List.forall_mem_singleton.mpr ?_⟩
    · have hbefore := (hordered f hf last (List.mem_singleton_self last)).stop_le
      omega
    · exact fun hstop => hlast (by simp [hstop])

/-- Where one tiling goes on, every other one with the same front does, and not further right. -/
theorem TilesBelow.exists_head {front behind : List Span}
    (h : TilesBelow pattern text limit (front ++ spans))
    (h' : TilesBelow pattern text limit (front ++ span :: behind)) :
    ∃ head tail, spans = head :: tail ∧ head.start ≤ span.start := by
  by_contra hright
  have hmem : span ∈ front ++ span :: behind := List.mem_append_right _ List.mem_cons_self
  have hfront : ∀ f ∈ front, f.Before span := fun f hf =>
    (List.pairwise_append.mp h'.ordered).2.2 f hf span List.mem_cons_self
  have hspans : ∀ f ∈ spans, span.start < f.start := by
    cases spans with
    | nil => exact fun f hf => absurd hf List.not_mem_nil
    | cons head tail =>
        have hhead : span.start < head.start :=
          Nat.lt_of_not_le fun hle => hright ⟨head, tail, rfl, hle⟩
        have hordered := (List.pairwise_append.mp h.ordered).2.1
        refine List.forall_mem_cons.mpr ⟨hhead, fun f hf => ?_⟩
        exact lt_trans hhead (List.rel_of_pairwise_cons hordered hf).start_lt
  -- the span would begin in a gap of the other tiling
  have hgap : IsGap (front ++ spans) span.start := List.forall_mem_append.mpr
    ⟨fun f hf => .inr (hfront f hf).stop_le, fun f hf => .inl (hspans f hf)⟩
  obtain ⟨hempty, f, hf, hend⟩ :=
    h.complete span.start (h'.below span hmem).1 hgap span.stop (h'.occurs span hmem)
  rcases List.mem_append.mp hf with hf | hf
  · exact (hfront f hf).stop_ne hempty.symm hend
  · have hordered := (h.occurs f (List.mem_append_right _ hf)).within
    have hlater := hspans f hf
    omega

/-- Two tilings of the same text are the same. -/
theorem TilesBelow.unique : ∀ (front : List Span) {spans spans' : List Span},
    TilesBelow pattern text limit (front ++ spans) →
      TilesBelow pattern text limit (front ++ spans') → spans = spans'
  | _, [], [], _, _ => rfl
  | _, [], _ :: _, h, h' => by
      obtain ⟨_, _, hcons, _⟩ := h.exists_head h'
      cases hcons
  | front, span :: behind, spans', h, h' => by
      obtain ⟨head, tail, rfl, hle⟩ := h'.exists_head h
      obtain ⟨_, _, hcons, hge⟩ := h.exists_head h'
      obtain ⟨rfl, rfl⟩ := List.cons.inj hcons
      have hmem : span ∈ front ++ span :: behind := List.mem_append_right _ List.mem_cons_self
      have hmem' : head ∈ front ++ head :: tail := List.mem_append_right _ List.mem_cons_self
      have hstart : head.start = span.start := le_antisymm hle hge
      have hstop : head.stop = span.stop := le_antisymm
        (h.longest span hmem head (h'.occurs head hmem') hstart)
        (h'.longest head hmem' span (h.occurs span hmem) hstart.symm)
      obtain rfl : head = span := by
        cases head
        cases span
        exact congrArg₂ Span.mk hstart hstop
      rw [List.append_cons] at h h'
      rw [TilesBelow.unique (front ++ [head]) h h']

/-! ### Scans -/

/-- A scan under way: the matches that are found so far, and where it goes on. -/
structure Scan where
  found : List Span
  position : ℕ
deriving DecidableEq, Repr

namespace Scan

/-- The scan that begins at the start of the text. -/
def initial : Scan := ⟨[], 0⟩

/-- Where the last match ends. -/
def lastStop (scan : Scan) : Option ℕ := scan.found.getLast?.map Span.stop

/-- Goes on behind a match.  Behind an empty one it goes on with the next position, and does not
count it if the last match ends there. -/
def take (scan : Scan) (span : Span) : Scan :=
  if span.start < span.stop then ⟨scan.found ++ [span], span.stop⟩
  else if scan.lastStop = some span.start then ⟨scan.found, span.start + 1⟩
  else ⟨scan.found ++ [span], span.start + 1⟩

/-- One turn of a scan, which is at its end when nothing is found any more. -/
def next? (pattern text : String) (scan : Scan) : Option Scan :=
  (search pattern text scan.position).map scan.take

/-- The scan after so many turns, if it does not come to its end before. -/
def after? (pattern text : String) : ℕ → Scan → Option Scan
  | 0, scan => some scan
  | turns + 1, scan => (scan.next? pattern text).bind (after? pattern text turns)

/-- What is found so far are the matches that begin before the position. -/
def Tiles (pattern text : String) (scan : Scan) : Prop :=
  TilesBelow pattern text scan.position scan.found

variable {scan scan' : Scan} {turns : ℕ}

/-- A turn takes the leftmost of the matches that begin at or behind the position. -/
theorem next?_eq_some (h : scan.next? pattern text = some scan') :
    ∃ span, search pattern text scan.position = some span ∧ scan.take span = scan' ∧
      Best Span.leftmostLongest
        (fun span => Occurs pattern text span ∧ scan.position ≤ span.start) (some span) := by
  obtain ⟨span, hsearch, rfl⟩ := Option.map_eq_some_iff.mp h
  exact ⟨span, hsearch, rfl, hsearch ▸ best_search scan.position⟩

/-- At the end of a scan nothing begins at or behind its position. -/
theorem not_occurs_of_next?_eq_none (h : scan.next? pattern text = none) :
    ∀ span, ¬ (Occurs pattern text span ∧ scan.position ≤ span.start) := by
  have hbest := @best_search pattern text scan.position
  rwa [Option.map_eq_none_iff.mp h] at hbest

/-- **A turn keeps a tiling.** -/
theorem Tiles.take (h : scan.Tiles pattern text)
    (hbest : Best Span.leftmostLongest
      (fun span => Occurs pattern text span ∧ scan.position ≤ span.start) (some span)) :
    (scan.take span).Tiles pattern text := by
  have hordered := hbest.1.1.within
  have hbehind := hbest.1.2
  unfold Scan.take
  split_ifs with hlt hlast
  · exact TilesBelow.concat h hbest (fun hempty => by omega) hlt le_rfl fun position hlt _ => hlt
  · -- the match is empty and does not count: the last match ends where it is
    have hend : ∃ f ∈ scan.found, f.stop = span.start := by
      obtain ⟨f, hf, hstop⟩ := Option.map_eq_some_iff.mp hlast
      exact ⟨f, List.mem_of_getLast? hf, hstop⟩
    refine TilesBelow.mono h (Nat.le_succ_of_le hbehind) fun position hge hlt stop hoccurs => ?_
    have hpreferred := hbest.2 ⟨position, stop⟩ ⟨hoccurs, hge⟩
    have hself : position ≤ stop := hoccurs.within.1
    unfold Span.leftmostLongest at hpreferred
    dsimp only at hpreferred hlt
    obtain rfl : position = span.start := by omega
    exact ⟨by omega, hend⟩
  · have hstop : span.stop = span.start := by omega
    refine TilesBelow.concat h hbest (fun _ => h.stop_ne hbehind hlast) (Nat.lt_succ_self _) ?_ ?_
    · exact hstop ▸ Nat.le_succ _
    · exact fun position hlt hgt => absurd hgt (Nat.not_lt.mpr (Nat.lt_succ_iff.mp hlt))

theorem position_lt_take (hbehind : scan.position ≤ span.start) :
    scan.position < (scan.take span).position := by
  unfold Scan.take
  split_ifs with hlt
  · exact lt_of_le_of_lt hbehind hlt
  all_goals exact Nat.lt_succ_of_le hbehind

theorem Tiles.after? (h : scan.Tiles pattern text)
    (hafter : scan.after? pattern text turns = some scan') : scan'.Tiles pattern text := by
  induction turns generalizing scan with
  | zero => exact Option.some.inj hafter ▸ h
  | succ turns ih =>
      obtain ⟨next, hnext, hafter⟩ := Option.bind_eq_some_iff.mp hafter
      obtain ⟨span, -, rfl, hbest⟩ := next?_eq_some hnext
      exact ih (h.take hbest) hafter

/-- **At its end a scan has found all matches.** -/
theorem Tiles.isTiling (h : scan.Tiles pattern text) (hend : scan.next? pattern text = none) :
    IsTiling pattern text scan.found where
  occurs := h.occurs
  longest := h.longest
  ordered := h.ordered
  below f hf := by
    have hwithin := (h.occurs f hf).within
    omega
  complete position hposition hgap stop hoccurs := by
    rcases Nat.lt_or_ge position scan.position with hlt | hge
    · exact h.complete position hlt hgap stop hoccurs
    · exact absurd ⟨hoccurs, hge⟩ (not_occurs_of_next?_eq_none hend ⟨position, stop⟩)

/-- **A scan comes to its end**, with at most one turn for each position. -/
theorem exists_end (scan : Scan) :
    ∃ turns last, turns ≤ text.length + 1 - scan.position ∧
      scan.after? pattern text turns = some last ∧ last.next? pattern text = none := by
  cases hnext : scan.next? pattern text with
  | none => exact ⟨0, scan, Nat.zero_le _, rfl, hnext⟩
  | some next =>
      obtain ⟨span, -, rfl, hbest⟩ := next?_eq_some hnext
      have hwithin := hbest.1.1.within
      have hbehind := hbest.1.2
      have hfurther : scan.position < (scan.take span).position := position_lt_take hbehind
      obtain ⟨turns, last, hturns, hafter, hend⟩ := exists_end (scan.take span)
      refine ⟨turns + 1, last, by omega, ?_, hend⟩
      rw [Scan.after?, hnext]
      exact hafter
termination_by text.length + 1 - scan.position

/-! ### The row of a scan -/

/-- The matches that are left in the row of the pattern. -/
def remaining (pattern text : String) (scan : Scan) : List Span :=
  tiling text.length 0 scan.lastStop scan.position
    ((longest (elements pattern.toList) text.toList).drop scan.position)

end Scan

theorem tiling_skip (size : ℕ) (lastStop : Option ℕ) : ∀ (skip start : ℕ) (row : Row),
    tiling size skip lastStop start row = tiling size 0 lastStop (start + skip) (row.drop skip)
  | 0, start, row => rfl
  | skip + 1, start, [] => rfl
  | skip + 1, start, entry :: row => by
      rw [tiling, tiling_skip size lastStop skip (start + 1) row, List.drop_succ_cons]
      congr 1
      omega

theorem tiling_append_none (size : ℕ) (lastStop : Option ℕ) (row : Row) : ∀ (count start : ℕ),
    tiling size 0 lastStop start (List.replicate count none ++ row) =
      tiling size 0 lastStop (start + count) row
  | 0, start => rfl
  | count + 1, start => by
      rw [List.replicate_succ, List.cons_append, tiling, tiling_append_none size lastStop row count]
      congr 1
      omega

/-- The first match in a row stands behind the entries that are empty. -/
theorem firstSpan?_eq_some {size : ℕ} : ∀ {start : ℕ} {row : Row},
    firstSpan? size start row = some span → ∃ count left behind,
      row = List.replicate count none ++ some left :: behind ∧
        span = ⟨start + count, size - left⟩
  | start, none :: row, h => by
      have hbehind : firstSpan? size (start + 1) row = some span := h
      obtain ⟨count, left, behind, rfl, rfl⟩ := firstSpan?_eq_some hbehind
      exact ⟨count + 1, left, behind, rfl, by simp; omega⟩
  | start, some left :: row, h => ⟨0, left, row, rfl, (Option.some.inj h).symm⟩

theorem firstSpan?_eq_none {size : ℕ} : ∀ {start : ℕ} {row : Row},
    firstSpan? size start row = none → ∃ count, row = List.replicate count none
  | start, [], h => ⟨0, rfl⟩
  | start, none :: row, h => by
      have hbehind : firstSpan? size (start + 1) row = none := h
      obtain ⟨count, rfl⟩ := firstSpan?_eq_none hbehind
      exact ⟨count + 1, rfl⟩

namespace Scan

variable {scan scan' : Scan} {turns : ℕ}

theorem lastStop_concat (found : List Span) (span : Span) (position : ℕ) :
    (⟨found ++ [span], position⟩ : Scan).lastStop = some span.stop := by
  simp [lastStop]

/-- Taking a match is reading its entry off the row. -/
theorem found_append_remaining_take {left : ℕ} {behind : Row} (hle : span.start ≤ span.stop)
    (hstop : span.stop = text.length - left)
    (hrow : (longest (elements pattern.toList) text.toList).drop span.start =
      some left :: behind) :
    (scan.take span).found ++ (scan.take span).remaining pattern text =
      scan.found ++ tiling text.length 0 scan.lastStop span.start (some left :: behind) := by
  have hbehind (further : ℕ) : (longest (elements pattern.toList) text.toList).drop
      (span.start + 1 + further) = behind.drop further := by
    rw [Nat.add_assoc, ← List.drop_drop, hrow, Nat.add_comm 1 further, List.drop_succ_cons]
  obtain ⟨start, stop⟩ := span
  dsimp only at hle hstop hbehind ⊢
  rw [tiling, ← hstop]
  unfold Scan.take remaining
  dsimp only
  split_ifs with hlt hlast
  · obtain ⟨inside, rfl⟩ := Nat.exists_eq_add_of_le (Nat.succ_le_of_lt hlt)
    have hinside : start.succ + inside - start - 1 = inside := by omega
    rw [lastStop_concat, hinside, tiling_skip _ _ inside, List.append_assoc, List.singleton_append]
    rw [hbehind inside]
  · exact congrArg _ (congrArg _ (hbehind 0))
  · obtain rfl : stop = start := by omega
    rw [lastStop_concat, List.append_assoc, List.singleton_append, hbehind 0, List.drop_zero]

/-- A turn moves the first match that is left to those that are found. -/
theorem found_append_remaining_of_next? (h : scan.next? pattern text = some scan') :
    scan'.found ++ scan'.remaining pattern text = scan.found ++ scan.remaining pattern text := by
  obtain ⟨span, hsearch, rfl, hbest⟩ := next?_eq_some h
  obtain ⟨count, left, behind, hrow, hspan⟩ := firstSpan?_eq_some hsearch
  have hstart : scan.position + count = span.start := by rw [hspan]
  have hentry : (longest (elements pattern.toList) text.toList).drop span.start =
      some left :: behind := by
    rw [← hstart, ← List.drop_drop, hrow, List.drop_left' List.length_replicate]
  rw [found_append_remaining_take hbest.1.1.within.1 (by rw [hspan]) hentry, remaining, hrow,
    tiling_append_none, hstart]

theorem remaining_of_next?_eq_none (h : scan.next? pattern text = none) :
    scan.remaining pattern text = [] := by
  obtain ⟨count, hrow⟩ := firstSpan?_eq_none (Option.map_eq_none_iff.mp h)
  have hempty := tiling_append_none text.length scan.lastStop [] count scan.position
  rw [List.append_nil] at hempty
  rw [remaining, hrow, hempty]
  rfl

theorem found_append_remaining_of_after? (hafter : scan.after? pattern text turns = some scan') :
    scan'.found ++ scan'.remaining pattern text = scan.found ++ scan.remaining pattern text := by
  induction turns generalizing scan with
  | zero => rw [Option.some.inj hafter]
  | succ turns ih =>
      obtain ⟨next, hnext, hafter⟩ := Option.bind_eq_some_iff.mp hafter
      rw [ih hafter, found_append_remaining_of_next? hnext]

variable (pattern text)

/-- A scan of the whole text finds what is read off the row. -/
theorem exists_searchAll :
    ∃ turns last, turns ≤ text.length + 1 ∧ initial.after? pattern text turns = some last ∧
      last.next? pattern text = none ∧ last.found = searchAll pattern text := by
  obtain ⟨turns, last, hturns, hafter, hend⟩ := @exists_end pattern text initial
  refine ⟨turns, last, hturns, hafter, hend, ?_⟩
  have hfound := found_append_remaining_of_after? hafter
  rw [remaining_of_next?_eq_none hend, List.append_nil] at hfound
  rw [hfound, searchAll, searchAllList, String.length_toList]
  rfl

end Scan

variable (pattern text)

theorem isTiling_searchAll : IsTiling pattern text (searchAll pattern text) := by
  obtain ⟨turns, last, -, hafter, hend, hfound⟩ := Scan.exists_searchAll pattern text
  have htiles : Scan.initial.Tiles pattern text := TilesBelow.nil
  exact hfound ▸ (htiles.after? hafter).isTiling hend

/-- **The matches of a pattern tile the text**, and nothing else does.  The scan that finds them
comes to its end, with at most one turn for each position. -/
theorem searchAll_tiles :
    IsTiling pattern text (searchAll pattern text) ∧
      (∀ spans, IsTiling pattern text spans → spans = searchAll pattern text) ∧
      ∃ turns last, turns ≤ text.length + 1 ∧
        Scan.initial.after? pattern text turns = some last ∧
        last.next? pattern text = none ∧ last.found = searchAll pattern text :=
  have htiles := isTiling_searchAll pattern text
  ⟨htiles, fun _ h => TilesBelow.unique [] h htiles, Scan.exists_searchAll pattern text⟩

end ShellExpansion.Glob
