import ShellExpansion.Glob.Replace
import ShellExpansion.Proofs.Glob.Literal
import ShellExpansion.Proofs.Glob.Tiling

/-! # Replacing rewrites the matches

A text in which matches are replaced is cut into the gaps, which stay as they are, and the matches
between them, in whose place the replacement stands (`IsRewrite`).  Which matches these are is said
without the rows of the pattern (`IsChosen`): all of a tiling, or the one that is preferred among
those that the occurrence admits.

An escaped text occurs where it is a prefix of what is left, so that replacing all its matches is
replacing the text itself, from left to right (`fill_tiling_literals`). -/

namespace ShellExpansion.Glob

/-! ### Cuts -/

/-- A stretch of a text that stays, and the stretch behind it that is replaced. -/
structure Cut where
  gap : List Char
  found : List Char
deriving DecidableEq, Repr

/-- The text that is cut, with the gap behind the last cut. -/
def joined (cuts : List Cut) (tail : List Char) : List Char :=
  cuts.flatMap (fun cut => cut.gap ++ cut.found) ++ tail

/-- The cut with another text in the place of what is found. -/
def Cut.withFound (replacement : List Char) (cut : Cut) : Cut := { cut with found := replacement }

/-- Where the stretches that are replaced stand, when the first gap begins at the position. -/
def spansFrom : ℕ → List Cut → List Span
  | _, [] => []
  | position, cut :: cuts =>
    let start := position + cut.gap.length
    let stop := start + cut.found.length
    ⟨start, stop⟩ :: spansFrom stop cuts

theorem joined_cons (cut : Cut) (cuts : List Cut) (tail : List Char) :
    joined (cut :: cuts) tail = cut.gap ++ cut.found ++ joined cuts tail := by
  simp [joined]

/-- The spans follow each other between two positions. -/
structure Fit (position limit : ℕ) (spans : List Span) : Prop where
  within : ∀ span ∈ spans, position ≤ span.start ∧ span.start ≤ span.stop ∧ span.stop ≤ limit
  apart : spans.Pairwise fun a b => a.stop ≤ b.start

theorem Fit.tail {position limit : ℕ} {span : Span} {spans : List Span}
    (h : Fit position limit (span :: spans)) : Fit span.stop limit spans where
  within other hother :=
    ⟨List.rel_of_pairwise_cons h.apart hother, (h.within other (List.mem_cons_of_mem _ hother)).2⟩
  apart := h.apart.of_cons

/-- A text can be cut at spans that follow each other, and filling them keeps the gaps. -/
theorem Fit.exists_cuts (replacement : List Char) : ∀ {position : ℕ} {cs : List Char}
    {spans : List Span}, Fit position (position + cs.length) spans → ∃ cuts tail,
      cs = joined cuts tail ∧ spans = spansFrom position cuts ∧
        fill replacement position cs spans = joined (cuts.map (.withFound replacement)) tail
  | position, cs, [], _ => ⟨[], cs, rfl, rfl, rfl⟩
  | position, cs, ⟨start, stop⟩ :: spans, h => by
      obtain ⟨hstart, hordered, hstop⟩ := h.within _ List.mem_cons_self
      dsimp only at hstart hordered hstop
      obtain ⟨before, rfl⟩ := Nat.exists_eq_add_of_le hstart
      obtain ⟨inside, rfl⟩ := Nat.exists_eq_add_of_le hordered
      have hgap : (cs.take before).length = before := by
        rw [List.length_take]
        omega
      have hfound : ((cs.drop before).take inside).length = inside := by
        rw [List.length_take, List.length_drop]
        omega
      have hrest : position + before + inside + (cs.drop (before + inside)).length =
          position + cs.length := by
        rw [List.length_drop]
        omega
      have hfit : Fit (position + before + inside)
          (position + before + inside + (cs.drop (before + inside)).length) spans := by
        rw [hrest]
        exact h.tail
      obtain ⟨cuts, tail, hjoined, rfl, hfill⟩ := hfit.exists_cuts replacement
      refine ⟨⟨cs.take before, (cs.drop before).take inside⟩ :: cuts, tail, ?_, ?_, ?_⟩
      · rw [joined_cons, ← hjoined, List.append_assoc, ← List.drop_drop, List.take_append_drop,
          List.take_append_drop]
      · simp only [spansFrom, hgap, hfound]
      · have hwidth : position + before + inside - position = before + inside := by omega
        rw [List.map_cons, joined_cons, fill, Nat.add_sub_cancel_left, hwidth, hfill]
        rfl

variable {pattern text : String} {occurrence : Occurrence} {spans : List Span}

/-! ### The matches that are replaced -/

/-- Where a match may stand. -/
def Occurrence.Admits (text : String) : Occurrence → Span → Prop
  | .start, span => span.start = 0
  | .stop, span => span.stop = text.length
  | _, _ => True

/-- Which of two matches of its own an occurrence takes. -/
def Occurrence.Prefers : Occurrence → Span → Span → Prop
  | .start, a, b => b.stop ≤ a.stop
  | .stop, a, b => a.start ≤ b.start
  | _, a, b => a.leftmostLongest b

/-- The spans are the matches that an occurrence means: all that a text is tiled with, or the one
that it prefers, if it admits any. -/
def IsChosen (pattern text : String) (occurrence : Occurrence) (spans : List Span) : Prop :=
  match occurrence with
  | .all => spans = searchAll pattern text ∧ IsTiling pattern text spans
  | _ => ∃ found, spans = Option.toList found ∧ Best occurrence.Prefers
      (fun span => Occurs pattern text span ∧ occurrence.Admits text span) found

variable (pattern text) in
theorem isChosen_occurrences (occurrence : Occurrence) :
    IsChosen pattern text occurrence (occurrences occurrence pattern text) := by
  cases occurrence with
  | first =>
      refine ⟨_, rfl, (best_search 0).congr fun span => ?_⟩
      simp [Occurrence.Admits]
  | all => exact ⟨rfl, isTiling_searchAll pattern text⟩
  | start => exact ⟨_, rfl, best_prefixSpan? true⟩
  | stop => exact ⟨_, rfl, best_suffixSpan? true⟩

/-- Where one match is meant, there is at most one span. -/
theorem IsChosen.length_le_one (h : IsChosen pattern text occurrence spans)
    (hone : occurrence ≠ .all) : spans.length ≤ 1 := by
  have htoList (found : Option Span) : found.toList.length ≤ 1 := by cases found <;> simp
  cases occurrence with
  | all => exact absurd rfl hone
  | _ =>
      obtain ⟨found, rfl, -⟩ := h
      exact htoList found

theorem IsChosen.occurs (h : IsChosen pattern text occurrence spans) :
    ∀ span ∈ spans, Occurs pattern text span ∧ occurrence.Admits text span := by
  intro span hspan
  cases occurrence with
  | all => exact ⟨h.2.occurs span hspan, trivial⟩
  | _ =>
      obtain ⟨found, rfl, hbest⟩ := h
      obtain rfl : found = some span := Option.mem_toList.mp hspan
      exact hbest.1

theorem IsChosen.fit (h : IsChosen pattern text occurrence spans) : Fit 0 text.length spans where
  within span hspan := ⟨Nat.zero_le _, (h.occurs span hspan).1.within⟩
  apart := by
    by_cases hall : occurrence = .all
    · subst hall
      exact h.2.ordered.imp Span.Before.stop_le
    · match spans, h.length_le_one hall with
      | [], _ => exact .nil
      | [span], _ => exact List.pairwise_singleton _ _

/-- Nothing is chosen where nothing is admitted. -/
theorem IsChosen.eq_nil (h : IsChosen pattern text occurrence spans)
    (hnone : ∀ span, Occurs pattern text span → ¬ occurrence.Admits text span) : spans = [] :=
  List.eq_nil_iff_forall_not_mem.mpr fun span hspan =>
    hnone span (h.occurs span hspan).1 (h.occurs span hspan).2

/-! ### Rewritten texts -/

/-- The result is the text with the replacement in the place of the matches that the occurrence
means, which `cuts` and `tail` cut it at. -/
structure IsRewrite (occurrence : Occurrence) (pattern replacement text result : String)
    (cuts : List Cut) (tail : List Char) : Prop where
  text_eq : text.toList = joined cuts tail
  chosen : IsChosen pattern text occurrence (spansFrom 0 cuts)
  result_eq : result.toList = joined (cuts.map (.withFound replacement.toList)) tail
  /-- At the start of the text, no gap comes before the match. -/
  gap_eq_nil : occurrence = .start → ∀ cut ∈ cuts, cut.gap = []
  /-- At the end of the text, no gap comes behind it. -/
  tail_eq_nil : occurrence = .stop → cuts ≠ [] → tail = []

theorem gap_eq_nil_of_start_eq_zero : ∀ {position : ℕ} {cuts : List Cut},
    (∀ span ∈ spansFrom position cuts, span.start = 0) → ∀ cut ∈ cuts, cut.gap = []
  | _, [], _ => fun _ h => absurd h List.not_mem_nil
  | position, cut :: cuts, h => by
      obtain ⟨hstart, hlater⟩ := List.forall_mem_cons.mp h
      dsimp only at hstart
      refine List.forall_mem_cons.mpr ⟨List.length_eq_zero_iff.mp (by omega), ?_⟩
      exact gap_eq_nil_of_start_eq_zero hlater

theorem tail_eq_nil_of_stop_eq_length {position : ℕ} {cuts : List Cut} {tail : List Char}
    (hone : (spansFrom position cuts).length ≤ 1) (hcuts : cuts ≠ [])
    (hstop : ∀ span ∈ spansFrom position cuts, span.stop = position + (joined cuts tail).length) :
    tail = [] := by
  match cuts, hcuts with
  | [cut], _ =>
      have hlength : (joined [cut] tail).length =
          cut.gap.length + cut.found.length + tail.length := by
        rw [joined_cons, List.length_append, List.length_append]
        rfl
      have hstop := hstop _ (List.mem_singleton_self _)
      dsimp only at hstop
      exact List.length_eq_zero_iff.mp (by omega)
  | first :: second :: cuts, _ => exact absurd hone (by simp [spansFrom])

theorem toList_replace (occurrence : Occurrence) (hpattern : pattern ≠ "") (replacement : String) :
    (replace occurrence pattern replacement text).toList =
      fill replacement.toList 0 text.toList (occurrences occurrence pattern text) := by
  unfold replace
  rw [if_neg hpattern, String.toList_ofList]

/-- **A text in which matches are replaced is a rewrite of the text.** -/
theorem exists_isRewrite (occurrence : Occurrence) (hpattern : pattern ≠ "")
    (replacement : String) : ∃ cuts tail,
      IsRewrite occurrence pattern replacement text (replace occurrence pattern replacement text)
        cuts tail := by
  have hchosen := isChosen_occurrences pattern text occurrence
  have hfit : Fit 0 (0 + text.toList.length) (occurrences occurrence pattern text) := by
    rw [Nat.zero_add, String.length_toList]
    exact hchosen.fit
  obtain ⟨cuts, tail, htext, hspans, hfill⟩ := hfit.exists_cuts replacement.toList
  rw [hspans] at hchosen
  refine ⟨cuts, tail, htext, hchosen, ?_, ?_, ?_⟩
  · rw [toList_replace occurrence hpattern, hfill]
  · rintro rfl
    exact gap_eq_nil_of_start_eq_zero fun span hspan => (hchosen.occurs span hspan).2
  · rintro rfl hcuts
    refine tail_eq_nil_of_stop_eq_length (hchosen.length_le_one (by decide)) hcuts
      fun span hspan => ?_
    rw [← htext, Nat.zero_add, String.length_toList]
    exact (hchosen.occurs span hspan).2

theorem replace_eq_self (hpattern : pattern ≠ "") (replacement : String)
    (hnone : ∀ span, Occurs pattern text span → ¬ occurrence.Admits text span) :
    replace occurrence pattern replacement text = text := by
  rw [← String.toList_inj, toList_replace occurrence hpattern,
    (isChosen_occurrences pattern text occurrence).eq_nil hnone, fill]

/-! ### Literal texts -/

/-- The text with each occurrence of the target replaced, from left to right, none overlapping the
one before. -/
def replaceText (target replacement : List Char) : List Char → List Char
  | [] => []
  | c :: rest =>
    if target <+: c :: rest then
      replacement ++ replaceText target replacement (rest.drop (target.length - 1))
    else c :: replaceText target replacement rest
termination_by cs => cs.length

theorem drop_pred_length {target : List Char} (htarget : target ≠ []) (c : Char)
    (rest : List Char) : rest.drop (target.length - 1) = (c :: rest).drop target.length := by
  cases target with
  | nil => exact absurd rfl htarget
  | cons d target => rfl

/-- Replacing a text by itself changes nothing. -/
theorem replaceText_self {target : List Char} (htarget : target ≠ []) (cs : List Char) :
    replaceText target target cs = cs := by
  fun_induction replaceText target target cs with
  | case1 => rfl
  | case2 c rest hprefix ih =>
      obtain ⟨behind, hbehind⟩ := hprefix
      rw [ih, drop_pred_length htarget c, ← hbehind, List.drop_left]
  | case3 c rest _ ih => rw [ih]

/-- Characters take a text exactly when they are a prefix of it. -/
theorem entry_literals {better : ℕ → ℕ → ℕ} : ∀ {target cs : List Char},
    entry better (target.map .literal) cs =
      if target <+: cs then some (cs.length - target.length) else none
  | [], cs => by simp [entry_nil]
  | c :: target, [] => by simp [entry_one_nil]
  | c :: target, d :: cs => by
      rw [List.map_cons, entry_one_cons (by simp), entry_literals]
      simp only [Element.accepts, beq_iff_eq, List.cons_prefix_cons, List.length_cons,
        Nat.add_sub_add_right, ite_and]

/-- Matches stand at or behind the place where the row begins. -/
theorem le_start_of_mem_tiling {size skip start : ℕ} {lastStop : Option ℕ} {row : Row} {span : Span}
    (h : span ∈ tiling size skip lastStop start row) :
    start ≤ span.start ∧ span.start ≤ span.stop := by
  fun_induction tiling size skip lastStop start row with
  | case1 => exact absurd h List.not_mem_nil
  | case4 lastStop start row left stop hlt ih =>
      rcases List.mem_cons.mp h with rfl | h
      · exact ⟨le_rfl, le_of_lt hlt⟩
      · exact ⟨Nat.le_of_succ_le (ih h).1, (ih h).2⟩
  | case6 lastStop start row left stop _ _ ih =>
      rcases List.mem_cons.mp h with rfl | h
      · exact ⟨le_rfl, le_rfl⟩
      · exact ⟨Nat.le_of_succ_le (ih h).1, (ih h).2⟩
  | _ =>
      rename_i ih
      exact ⟨Nat.le_of_succ_le (ih h).1, (ih h).2⟩

/-- The first character stays when all spans are behind it. -/
theorem fill_cons (replacement : List Char) {position : ℕ} (c : Char) (cs : List Char) :
    ∀ {spans : List Span}, (∀ span ∈ spans, position + 1 ≤ span.start ∧ span.start ≤ span.stop) →
      fill replacement position (c :: cs) spans = c :: fill replacement (position + 1) cs spans
  | [], _ => rfl
  | ⟨start, stop⟩ :: spans, h => by
      obtain ⟨hstart, hordered⟩ := h _ List.mem_cons_self
      dsimp only at hstart hordered
      have hgap : start - position = start - (position + 1) + 1 := by omega
      have hwidth : stop - position = stop - (position + 1) + 1 := by omega
      rw [fill, fill, hgap, hwidth, List.take_succ_cons, List.drop_succ_cons, List.cons_append,
        List.cons_append]

/-- **Replacing what the characters of a text match is replacing the text.** -/
theorem fill_tiling_literals {target : List Char} (htarget : target ≠ []) (replacement : List Char)
    {size : ℕ} (cs : List Char) : ∀ {lastStop : Option ℕ} {start : ℕ}, size = start + cs.length →
      fill replacement start cs
        (tiling size 0 lastStop start (longest (target.map .literal) cs)) =
      replaceText target replacement cs := by
  fun_induction replaceText target replacement cs with
  | case1 =>
      intro lastStop start _
      rw [longest, remainders_nil, entry_literals, if_neg (by simpa using htarget)]
      rfl
  | case2 c rest hprefix ih =>
      intro lastStop start hsize
      have hlength := hprefix.length_le
      have hpositive := List.length_pos_iff.mpr htarget
      have hstop : size - ((c :: rest).length - target.length) = start + target.length := by omega
      have hwidth : start + target.length - start - 1 = target.length - 1 := by omega
      have hnext : start + 1 + (target.length - 1) = start + target.length := by omega
      have hinside : target.length - 1 ≤ rest.length := by
        rw [List.length_cons] at hlength
        omega
      have hbehind : size = start + target.length + (rest.drop (target.length - 1)).length := by
        rw [hsize, List.length_drop, List.length_cons]
        omega
      rw [longest, remainders_cons, entry_literals, if_pos hprefix, tiling, hstop,
        if_pos (Nat.lt_add_of_pos_right hpositive), hwidth, tiling_skip, hnext, fill,
        drop_remainders _ hinside]
      rw [Nat.sub_self, List.take_zero, List.nil_append, Nat.add_sub_cancel_left,
        ← drop_pred_length htarget, ← longest, ih hbehind]
  | case3 c rest hprefix ih =>
      intro lastStop start hsize
      rw [longest, remainders_cons, entry_literals, if_neg hprefix, tiling,
        fill_cons _ _ _ fun span => le_start_of_mem_tiling]
      rw [← longest, ih]
      rw [hsize, List.length_cons]
      omega

theorem elements_escape (target : String) :
    elements (escape target).toList = target.toList.map .literal := by
  have h := spells_escape target []
  rwa [elements_nil, List.append_nil, List.append_nil] at h

theorem escape_ne_empty {target : String} (htarget : target.toList ≠ []) : escape target ≠ "" := by
  intro h
  have helements := elements_escape target
  rw [h, String.toList_empty, elements_nil] at helements
  exact htarget (List.map_eq_nil_iff.mp helements.symm)

/-- Replacing all matches of an escaped text is replacing the text. -/
theorem toList_replace_escape {target : String} (htarget : target.toList ≠ [])
    (replacement : String) :
    (replace .all (escape target) replacement text).toList =
      replaceText target.toList replacement.toList text.toList := by
  rw [toList_replace .all (escape_ne_empty htarget), occurrences, searchAll, searchAllList,
    elements_escape]
  exact fill_tiling_literals htarget _ _ (Nat.zero_add _).symm

variable (text) in
/-- **Replacing rewrites exactly the matches.**  For each occurrence, the result is the text with
the replacement in the place of the matches that are meant, and it is the text itself when the
pattern matches nowhere that is admitted.  When the pattern is an escaped text, replacing all matches
is replacing the text from left to right, and replacing the text by itself changes nothing. -/
theorem replace_rewrites :
    (∀ pattern, pattern ≠ "" → ∀ occurrence replacement,
      (∃ cuts tail, IsRewrite occurrence pattern replacement text
        (replace occurrence pattern replacement text) cuts tail) ∧
      ((∀ span, Occurs pattern text span → ¬ occurrence.Admits text span) →
        replace occurrence pattern replacement text = text)) ∧
    (∀ target, target ≠ "" →
      (∀ replacement, (replace .all (escape target) replacement text).toList =
        replaceText target.toList replacement.toList text.toList) ∧
      replace .all (escape target) target text = text) := by
  refine ⟨fun pattern hpattern occurrence replacement => ?_, fun target htarget => ?_⟩
  · exact ⟨exists_isRewrite occurrence hpattern replacement,
      replace_eq_self hpattern replacement⟩
  · have hnonempty : target.toList ≠ [] := fun h => htarget (String.toList_eq_nil_iff.mp h)
    refine ⟨toList_replace_escape hnonempty, ?_⟩
    rw [← String.toList_inj, toList_replace_escape hnonempty, replaceText_self hnonempty]

/-- In the text `a*ba*c` the pattern `?c` is replaced at the end, and the text `a*` by itself. -/
theorem replace_rewrites_stars :
    (∃ cuts tail, IsRewrite .stop "?c" "-" "a*ba*c" (replace .stop "?c" "-" "a*ba*c") cuts tail) ∧
      replace .stop "?c" "-" "a*ba*c" = "a*ba-" ∧
      replace .all (escape "a*") "-" "a*ba*c" = "-b-c" ∧
      replace .all (escape "a*") "a*" "a*ba*c" = "a*ba*c" :=
  ⟨((replace_rewrites "a*ba*c").1 "?c" (by decide) .stop "-").1, by decide +kernel,
    by decide +kernel, ((replace_rewrites "a*ba*c").2 "a*" (by decide)).2⟩

end ShellExpansion.Glob
