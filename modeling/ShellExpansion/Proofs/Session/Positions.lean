import ShellExpansion.Proofs.Arith.Covering
import ShellExpansion.Proofs.Lexical.Balanced
import ShellExpansion.Session.Query

/-! # Positions in a text

The position that closes a bracket is the one delimiter with a balanced text in front of it
(`closingPosition?_iff_balanced`), whatever stands behind it.  The positions of tokens are where
their texts stand, and the last one is the end of the text (`tokens_cover`). -/

namespace ShellExpansion.Query

open ShellExpansion.Lexical

/-! ### Closing delimiters -/

section closing

variable {opener closer : Char} {text : String} {start i j : ℕ}

variable (opener closer) in
/-- A closing delimiter stands at the position, and what is in front of it is balanced. -/
def ClosesAt (text : String) (start i : ℕ) : Prop :=
  start ≤ i ∧ Balanced opener closer (text.toList.extract start i) ∧ text.toList[i]? = some closer

/-- What stands in front of a position and at it does not depend on what is behind. -/
theorem ClosesAt.congr {other : String} (h : ClosesAt opener closer text start i)
    (hsame : other.toList.take (i + 1) = text.toList.take (i + 1)) :
    ClosesAt opener closer other start i := by
  have hfront : other.toList.take i = text.toList.take i := by
    have htake := congrArg (List.take i) hsame
    rwa [List.take_take, List.take_take, Nat.min_eq_left (Nat.le_succ i)] at htake
  have hat : other.toList[i]? = text.toList[i]? := by
    have hget := congrArg (fun cs => cs[i]?) hsame
    simpa using hget
  obtain ⟨hle, hbalanced, hcloser⟩ := h
  rw [List.extract_eq_drop_take', ← hfront, ← List.extract_eq_drop_take'] at hbalanced
  exact ⟨hle, hbalanced, hat.trans hcloser⟩

/-- What is found is a position that closes. -/
theorem closingPosition?_eq_some_iff (hdelimiters : AreDelimiters opener closer) :
    closingPosition? text start opener closer = some i ↔ ClosesAt opener closer text start i := by
  unfold closingPosition? ClosesAt
  rw [Option.map_eq_some_iff]
  constructor
  · rintro ⟨⟨inside, after⟩, hfound, rfl⟩
    obtain ⟨hdrop, hbalanced⟩ := (splitClosing?_eq_some_iff hdelimiters).mp hfound
    refine ⟨Nat.le_add_right _ _, ?_, ?_⟩
    · rw [List.extract_eq_take_drop, Nat.add_sub_cancel_left, hdrop, List.take_left]
      exact hbalanced
    · rw [← List.getElem?_drop, hdrop, List.getElem?_append_right (Nat.le_refl _), Nat.sub_self]
      rfl
  · rintro ⟨hle, hbalanced, hcloser⟩
    obtain ⟨hlt, hget⟩ := List.getElem?_eq_some_iff.mp hcloser
    have hfront : (text.toList.extract start i).length = i - start := by
      rw [List.length_take, List.length_drop]
      omega
    have hdrop : text.toList.drop start =
        text.toList.extract start i ++ closer :: text.toList.drop (i + 1) := by
      conv_lhs => rw [← List.take_append_drop (i - start) (text.toList.drop start)]
      rw [List.drop_drop, Nat.add_sub_cancel' hle, List.drop_eq_getElem_cons hlt, hget]
    refine ⟨(text.toList.extract start i, text.toList.drop (i + 1)),
      (splitClosing?_eq_some_iff hdelimiters).mpr ⟨hdrop, hbalanced⟩, ?_⟩
    rw [hfront, Nat.add_sub_cancel' hle]

/-- **The search finds the closing delimiter that has a balanced text in front of it**: there is at
most one, none is found if there is none, and what is behind it plays no part. -/
theorem closingPosition?_iff_balanced (opener closer : Char)
    (hdelimiters : AreDelimiters opener closer) (text : String) (start : ℕ) :
    (∀ i, closingPosition? text start opener closer = some i ↔
      ClosesAt opener closer text start i) ∧
    (∀ i j, ClosesAt opener closer text start i → ClosesAt opener closer text start j → i = j) ∧
    (closingPosition? text start opener closer = none ↔
      ¬ ∃ i, ClosesAt opener closer text start i) ∧
    ∀ i (other : String), closingPosition? text start opener closer = some i →
      other.toList.take (i + 1) = text.toList.take (i + 1) →
      closingPosition? other start opener closer = some i := by
  have hiff (text : String) (i : ℕ) : closingPosition? text start opener closer = some i ↔
      ClosesAt opener closer text start i := closingPosition?_eq_some_iff hdelimiters
  refine ⟨hiff text, fun i j hi hj => ?_, ?_, fun i other hi hsame => ?_⟩
  · exact Option.some.inj (((hiff text i).mpr hi).symm.trans ((hiff text j).mpr hj))
  · rw [Option.eq_none_iff_forall_ne_some, not_exists]
    exact forall_congr' fun i => not_congr (hiff text i)
  · exact (hiff other i).mpr (((hiff text i).mp hi).congr hsame)

/-- Quoted brackets, backslashes and pairs within the text. -/
theorem closingPosition?_iff_balanced_brackets :
    AreDelimiters '[' ']' ∧ ClosesAt '[' ']' "a[\"]\"[\\]']']]b" 2 12 ∧
      ∀ behind : String, closingPosition? ("a[\"]\"[\\]']']]" ++ behind) 2 '[' ']' = some 12 := by
  have hdelimiters : AreDelimiters '[' ']' := ⟨by decide, by decide, by decide⟩
  obtain ⟨hiff, -, -, hbehind⟩ :=
    closingPosition?_iff_balanced '[' ']' hdelimiters "a[\"]\"[\\]']']]b" 2
  have hfound : closingPosition? "a[\"]\"[\\]']']]b" 2 '[' ']' = some 12 := by decide +kernel
  refine ⟨hdelimiters, (hiff 12).mp hfound, fun behind => hbehind 12 _ hfound ?_⟩
  rw [String.toList_append, List.take_append_of_le_length (by decide +kernel)]
  decide +kernel

end closing

/-! ### Tokens -/

theorem answer_tokenize_eq_ok_iff {text : String} {tokens : List Arith.Token} {stop : ℕ} :
    (Query.tokenize text).answer = .ok (.tokens tokens stop) ↔
      Arith.tokenize text = .ok tokens ∧ stop = text.length := by
  constructor
  · intro h
    obtain ⟨found, hfound, hreply⟩ := exists_of_map_eq_ok h
    cases hreply
    exact ⟨eq_ok_of_mapError hfound, rfl⟩
  · rintro ⟨hfound, rfl⟩
    rw [answer, hfound]
    rfl

/-- **The tokens of a text that has tokens cover it**, and end with it. -/
theorem tokens_cover {text : String} {tokens : List Arith.Token} {stop : ℕ}
    (h : (Query.tokenize text).answer = .ok (.tokens tokens stop)) :
    Arith.Covers text tokens ∧ stop = text.length := by
  obtain ⟨hfound, hstop⟩ := answer_tokenize_eq_ok_iff.mp h
  exact ⟨Arith.covers_of_tokenize hfound, hstop⟩

/-- Tokens of every kind, with separators in front of them, between them and behind them. -/
theorem tokens_cover_kinds :
    Arith.Covers " a[\"]\"]<<=$((1+2))-\t0x7f**$x\n"
      [⟨.name "a" (some "\"]\""), 1⟩, ⟨.symbol "<<=", 7⟩, ⟨.parameter "$((1+2))", 10⟩,
        ⟨.symbol "-", 18⟩, ⟨.number "0x7f", 20⟩, ⟨.symbol "**", 24⟩, ⟨.parameter "$x", 26⟩] ∧
      29 = " a[\"]\"]<<=$((1+2))-\t0x7f**$x\n".length := by
  refine tokens_cover (answer_tokenize_eq_ok_iff.mpr ⟨?_, ?_⟩)
  · decide +kernel
  · decide +kernel

end ShellExpansion.Query
