import ShellExpansion.Proofs.Eval.Bounded
import ShellExpansion.Proofs.Eval.Indirect

/-! # Parts of a text

A part of a text has the characters at the positions between its bounds (`charactersBetween`).  An
offset that is negative counts from the end of the text, and not beyond its beginning (`partStart`);
a negative length sets the end as far from the end of the text.  A substring operation on a value
gives this part and never one from the other end, unless a negative length puts the end before the
beginning (`substring_none`, `substring_some`).  So the parts of a variable are those of its value,
and two parts that meet are the whole of it (`expandParameter_characters`). -/

namespace ShellExpansion

/-- The characters of a text at the positions from `start` on and before `stop`. -/
def charactersBetween (text : String) (start stop : Int) : String :=
  String.ofList ((text.toList.zipIdx.filter fun e => start ≤ e.2 ∧ e.2 < stop).map Prod.fst)

/-- Where a part begins: a negative offset counts from the end, but not beyond the beginning. -/
def partStart (size : ℕ) (offset : Int) : Int :=
  if 0 ≤ offset then offset else max 0 (size + offset)

/-! ### Characters between positions -/

theorem map_fst_filter_zipIdx {α : Type} (start stop : ℕ) : ∀ (xs : List α) (k : ℕ),
    ((xs.zipIdx k).filter fun e => start ≤ e.2 ∧ e.2 < stop).map Prod.fst =
      (xs.take (stop - k)).drop (start - k)
  | [], _ => by simp
  | x :: xs, k => by
      have ih := map_fst_filter_zipIdx start stop xs (k + 1)
      rw [List.zipIdx_cons, List.filter_cons]
      by_cases hstop : k < stop
      · have htake : stop - k = stop - (k + 1) + 1 := by omega
        rw [htake, List.take_succ_cons]
        by_cases hstart : start ≤ k
        · have hdrop : start - k = 0 := by omega
          have hdrop' : start - (k + 1) = 0 := by omega
          rw [if_pos (decide_eq_true ⟨hstart, hstop⟩), List.map_cons, ih, hdrop, hdrop']
          rfl
        · have hdrop : start - k = start - (k + 1) + 1 := by omega
          rw [if_neg (by simp [hstart]), ih, hdrop, List.drop_succ_cons]
      · have htake : stop - k = 0 := by omega
        have htake' : stop - (k + 1) = 0 := by omega
        rw [if_neg (by simp [hstop]), ih, htake, htake', List.take_zero, List.take_zero,
          List.drop_nil, List.drop_nil]

theorem charactersBetween_eq (text : String) (start stop : Int) :
    charactersBetween text start stop =
      String.ofList ((text.toList.take stop.toNat).drop start.toNat) := by
  have hbounds (e : Char × ℕ) : decide (start ≤ e.2 ∧ e.2 < stop) =
      decide (start.toNat ≤ e.2 ∧ e.2 < stop.toNat) := by
    rw [decide_eq_decide]
    omega
  unfold charactersBetween
  rw [funext hbounds, map_fst_filter_zipIdx]
  rfl

/-- Up to the end there are all characters from a position on. -/
theorem charactersBetween_length (text : String) (start : Int) :
    charactersBetween text start text.length =
      String.ofList (text.toList.drop start.toNat) := by
  rw [charactersBetween_eq, Int.toNat_natCast, ← String.length_toList, List.take_length]

/-- Nothing is beyond the end. -/
theorem charactersBetween_of_length_le {text : String} {start : Int}
    (h : (text.length : Int) ≤ start) (stop : Int) : charactersBetween text start stop = "" := by
  have hempty : (text.toList.take stop.toNat).length ≤ start.toNat := by
    rw [List.length_take, String.length_toList]
    omega
  rw [charactersBetween_eq, List.drop_of_length_le hempty]

/-- The characters in front of a position and those from it on are the text. -/
theorem charactersBetween_append (text : String) (k : ℕ) :
    charactersBetween text 0 k ++ charactersBetween text k text.length = text := by
  rw [charactersBetween_length, charactersBetween_eq, ← String.ofList_append]
  exact (congrArg String.ofList (List.take_append_drop k text.toList)).trans
    (String.ofList_toList ..)

theorem partStart_natCast (size k : ℕ) : partStart size k = k := if_pos (Int.natCast_nonneg k)

theorem partStart_nonneg (size : ℕ) (offset : Int) : 0 ≤ partStart size offset := by
  unfold partStart
  omega

namespace Evaluators

open Eval

/-! ### The operation on a text -/

theorem partStart_eq (size : ℕ) (offset : Int) :
    (if offset < 0 then max 0 (size + offset) else offset) = partStart size offset := by
  unfold partStart
  omega

theorem substring_none (text : String) (offset : Int) :
    substring text offset none =
      .ok (charactersBetween text (partStart text.length offset) text.length) := by
  unfold substring
  dsimp only
  rw [partStart_eq, charactersBetween_length]

/-- **A part is cut out at its bounds**, unless a negative length puts its end before its beginning,
which is not beyond the text. -/
theorem substring_some (text : String) (offset length : Int) :
    substring text offset (some length) =
      let start := partStart text.length offset
      if length < 0 ∧ start ≤ text.length ∧ text.length + length < start then
        .error (.substitution (.negativeLength length))
      else .ok (charactersBetween text start
        (if 0 ≤ length then start + length else text.length + length)) := by
  have hstart := partStart_nonneg text.length offset
  -- The operation drops in front before it takes, and the positions count from the beginning.
  have htake {stop : Int} {count : ℕ} (hcount : stop.toNat - (partStart text.length offset).toNat
      = count) : (text.toList.drop (partStart text.length offset).toNat).take count =
        (text.toList.take stop.toNat).drop (partStart text.length offset).toNat := by
    rw [List.drop_take, hcount]
  unfold substring
  dsimp only
  rw [partStart_eq]
  by_cases hlength : length < 0
  · rw [if_pos hlength, if_neg (Int.not_le.mpr hlength), charactersBetween_eq]
    simp only [hlength, true_and]
    rw [htake]
    omega
  · rw [if_neg hlength, if_neg (fun h => hlength h.1), if_pos (Int.not_lt.mp hlength),
      charactersBetween_eq, htake]
    omega

/-! ### The expansion -/

variable {deeper : Evaluators} {parameter : Parameter} {written offset length value : String}
  {shell between after : Shell} {start count : Int}

theorem applySubstring_none (hoffset : deeper.evaluate offset shell = (.ok start, between)) :
    deeper.applySubstring parameter offset none ⟨written, .one (some value)⟩ shell =
      (.ok [charactersBetween value (partStart value.length start) value.length], between) := by
  unfold applySubstring
  rw [bind_run_of_ok hoffset]
  dsimp only
  rw [pure_bind, bind_run, query_run, Option.getD_some, substring_none]
  rfl

theorem applySubstring_some (hoffset : deeper.evaluate offset shell = (.ok start, between))
    (hlength : deeper.evaluate length between = (.ok count, after)) :
    deeper.applySubstring parameter offset (some length) ⟨written, .one (some value)⟩ shell =
      match substring value start (some count) with
      | .ok text => (.ok [text], after)
      | .error e => (.error (.error e), after) := by
  unfold applySubstring
  rw [bind_run_of_ok hoffset]
  dsimp only
  rw [bind_run_of_ok hlength, pure_bind, bind_run, query_run, Option.getD_some]
  cases substring value start (some count) <;> rfl

section named

variable {name : String} (hname : isIdentifier name = true)
  (hvalue : shell.store.get? name = .ok (some value))

include hname hvalue

theorem expandParameter_from (hoffset : deeper.evaluate offset shell = (.ok start, between)) :
    deeper.expandParameter ⟨name, none, false, some (.substring offset none)⟩ shell =
      (.ok [charactersBetween value (partStart value.length start) value.length], between) := by
  rw [expandParameter_substring rfl (reading_variable deeper hname hvalue _) rfl,
    applySubstring_none hoffset]

theorem expandParameter_between (hoffset : deeper.evaluate offset shell = (.ok start, between))
    (hlength : deeper.evaluate length between = (.ok count, after)) :
    let first := partStart value.length start
    deeper.expandParameter ⟨name, none, false, some (.substring offset (some length))⟩ shell =
      if count < 0 ∧ first ≤ value.length ∧ value.length + count < first then
        (.error (.error (.substitution (.negativeLength count))), after)
      else (.ok [charactersBetween value first
        (if 0 ≤ count then first + count else value.length + count)], after) := by
  intro first
  rw [expandParameter_substring rfl (reading_variable deeper hname hvalue _) rfl,
    applySubstring_some hoffset hlength, substring_some]
  dsimp only
  split_ifs <;> rfl

theorem expandParameter_counted {k n : ℕ}
    (hoffset : deeper.evaluate offset shell = (.ok (k : Int), between))
    (hlength : deeper.evaluate length between = (.ok (n : Int), after)) :
    deeper.expandParameter ⟨name, none, false, some (.substring offset (some length))⟩ shell =
      (.ok [charactersBetween value k (k + n)], after) := by
  have hcount : (0 : Int) ≤ n := Int.natCast_nonneg n
  rw [expandParameter_between hname hvalue hoffset hlength,
    if_neg (fun h => Int.not_lt.mpr hcount h.1), if_pos hcount, partStart_natCast]

variable (deeper) in
/-- **A part of a value has the characters between its bounds**, which are counted from the end
where they are negative and never lead around it.  Let a variable have a value.  Where its offset
means an integer, the part from there on has the characters from this position on, whether they are
any or none.  Where its length means an integer too, a negative length that puts the end before the
beginning, which is not beyond the text, is refused, and else the part has the characters between
both.  Hence the first characters and those behind them are the value again, however many they
are. -/
theorem expandParameter_characters :
    (∀ offset start between, deeper.evaluate offset shell = (.ok start, between) →
      deeper.expandParameter ⟨name, none, false, some (.substring offset none)⟩ shell =
        (.ok [charactersBetween value (partStart value.length start) value.length], between)) ∧
    (∀ offset start between length count after,
      deeper.evaluate offset shell = (.ok start, between) →
      deeper.evaluate length between = (.ok count, after) →
      let first := partStart value.length start
      deeper.expandParameter ⟨name, none, false, some (.substring offset (some length))⟩ shell =
        if count < 0 ∧ first ≤ value.length ∧ value.length + count < first then
          (.error (.error (.substitution (.negativeLength count))), after)
        else (.ok [charactersBetween value first
          (if 0 ≤ count then first + count else value.length + count)], after)) ∧
    (∀ start stop : Int, value.length ≤ start → charactersBetween value start stop = "") ∧
    ∀ zero length offset (k : ℕ) atZero between after,
      deeper.evaluate zero shell = (.ok 0, atZero) →
      deeper.evaluate length atZero = (.ok (k : Int), between) →
      between.store.get? name = .ok (some value) →
      deeper.evaluate offset between = (.ok (k : Int), after) →
      ∃ front back,
        deeper.expandParameter ⟨name, none, false, some (.substring zero (some length))⟩ shell =
          (.ok [front], between) ∧
        deeper.expandParameter ⟨name, none, false, some (.substring offset none)⟩ between =
          (.ok [back], after) ∧ front ++ back = value := by
  refine ⟨fun _ _ _ => expandParameter_from hname hvalue,
    fun _ _ _ _ _ _ => expandParameter_between hname hvalue,
    fun _ stop h => charactersBetween_of_length_le h stop, ?_⟩
  intro zero length offset k atZero between after hzero hlength hvalue' hoffset
  have hfront := expandParameter_counted hname hvalue (k := 0) hzero hlength
  have hback := expandParameter_from hname hvalue' hoffset
  rw [Nat.cast_zero, Int.zero_add] at hfront
  rw [partStart_natCast] at hback
  exact ⟨_, _, hfront, hback, charactersBetween_append value k⟩

end named

/-- Offsets and lengths that count from the end, of which one counts a variable down: a part of two
characters, and an end that is before the beginning. -/
theorem expandParameter_characters_counting :
    let shell (bindings : Table Binding) : Shell := ⟨⟨[], ⟨"global", [], bindings⟩, .standard⟩,
      false, "script", 0⟩
    let bindings := Table.empty.insert "v" ⟨.scalar "abcdef", .none, 0⟩
    let before := shell bindings
    let counted := shell (bindings.insert "i" ⟨.scalar "-1", .none, 0⟩)
    let part (offset length : String) : Parameter :=
      ⟨"v", none, false, some (.substring offset (some length))⟩
    isIdentifier "v" = true ∧ before.store.get? "v" = .ok (some "abcdef") ∧
      (evaluators 2).evaluate "--i" before = (.ok (-1), counted) ∧
      (evaluators 2).expandParameter (part "-3" "--i") before = (.ok ["de"], counted) ∧
      (evaluators 2).expandParameter (part "--i" "-2") before =
        (.error (.error (.substitution (.negativeLength (-2)))), counted) := by
  intro shell bindings before counted part
  have hname : isIdentifier "v" = true := by decide
  have hvalue : before.store.get? "v" = .ok (some "abcdef") := by decide
  have hcounting : (evaluators 2).evaluate "--i" before = (.ok (-1), counted) := by
    show (_ : Except Fault Int × Shell) = _
    decide +kernel
  have hdecimal {m : Int} (hm : Arith.Fits m) {text : String} (htext : toString m = text) :
      (evaluators 2).evaluate text = pure m := by
    rw [← htext, evaluate_decimal hm]
  have hoffset : (evaluators 2).evaluate "-3" = pure (-3) := hdecimal (by decide) (by decide)
  have hlength : (evaluators 2).evaluate "-2" = pure (-2) := hdecimal (by decide) (by decide)
  obtain ⟨-, hbetween, -⟩ := expandParameter_characters (evaluators 2) hname hvalue
  refine ⟨hname, hvalue, hcounting, ?_, ?_⟩
  · exact hbetween _ _ _ _ _ _ (congrFun hoffset before) hcounting
  · exact hbetween _ _ _ _ _ _ hcounting (congrFun hlength counted)

end Evaluators

end ShellExpansion
