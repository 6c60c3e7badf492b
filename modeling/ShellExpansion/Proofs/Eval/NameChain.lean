import ShellExpansion.Proofs.Eval.Entries
import ShellExpansion.Proofs.Store.Resolution

/-! # Names as values

A variable whose value is a name stands for the variable of that name, one level deeper
(`expr_hop`).  A chain of such names is followed to the integer at its end, if there is one and the
bound on levels admits it (`expr_chain`), and refused at the first level beyond the bound
(`expr_chain_tooDeep`).  The shell is left as it was. -/

namespace ShellExpansion

/-! ### Names as expressions -/

theorem IsNameText.isName {name : String} (h : IsNameText name) : Arith.IsName name := by
  obtain ⟨c, rest, hname, hc, hrest⟩ := h
  refine ⟨c, rest, hname, isLetter_of_isNameStart hc, fun d hd => ?_⟩
  rw [Arith.isWordChar_of_ascii (toNat_lt_of_isNameChar (hrest d hd))]
  exact hrest d hd

theorem isPlainChar_of_isNameChar {c : Char} (h : isNameChar c = true) :
    Arith.isPlainChar c = true := by
  simp only [isNameChar, Bool.or_eq_true] at h
  simp only [Arith.isPlainChar, Bool.or_eq_true]
  exact h.imp_left fun h => .inl (.inl h)

theorem IsNameText.ne_empty {name : String} (h : IsNameText name) : name ≠ "" := by
  obtain ⟨c, rest, hname, -⟩ := h
  rintro rfl
  cases hname

theorem Arith.parse_name {name : String} (h : IsName name) :
    parse name = .ok (.read (.variable name)) := by
  have hread := (readsLexeme_name h (.inl rfl)).tokensFrom_last 0
  have htokenize : tokenize name = .ok [⟨(Target.variable name).lexeme, 0⟩] := by
    rw [tokenize, hread]
    rfl
  have hindexed : (Target.variable name).Indexed (parseNested name.length) := trivial
  exact parseNested_of_readBack htokenize (readBack_read hindexed 0) (List.cons_ne_nil _ _)

/-- The shell one level deeper in the values of variables. -/
def Shell.deeper (shell : Shell) : Shell := { shell with arithDepth := shell.arithDepth + 1 }

namespace Evaluators

open Eval

theorem strip_name {name : String} (h : IsNameText name) : Text.strip name = name :=
  Text.strip_of_forall fun c hc =>
    Arith.isBlank_of_isPlainChar (isPlainChar_of_isNameChar (h.forall_isNameChar c hc))

/-- No name is a number. -/
theorem plainNumber?_name {name : String} (h : IsNameText name) : plainNumber? name = none := by
  obtain ⟨c, rest, hname, hc, -⟩ := h
  have hdigit : c.isDigit = false := by
    cases hdigit : c.isDigit with
    | false => rfl
    | true =>
        rw [isNameStart_eq_false_of_isDigit hdigit] at hc
        cases hc
  have hblank : Text.isBlank c = false :=
    Arith.isBlank_of_isPlainChar (isPlainChar_of_isNameChar (isNameChar_of_isNameStart hc))
  have hne {sign : Char} (hsign : isNameStart sign = false) : c ≠ sign := by
    rintro rfl
    rw [hc] at hsign
    cases hsign
  rw [plainNumber?_unsigned hname (hne (by decide)) (hne (by decide)) hblank, hdigit,
    Bool.false_and, if_neg Bool.false_ne_true]

variable {shell : Shell} {name text source : String} {m : Int}

/-- A name as a value is evaluated one level deeper, if the bound admits this level. -/
theorem valueOf_name_run (deeper : Evaluators) (hsource : source ≠ "") (htext : IsNameText text)
    (shell : Shell) :
    deeper.valueOf source (some text) shell =
      let result : Except Fault Int × Shell :=
        (if shell.store.limits.arithmeticDepth < ((shell.arithDepth + 1 : ℕ) : Int) then
          refuse (.arithmetic source .recursionTooDeep)
        else deeper.expression source (.read (.variable text))) shell.deeper
      (result.1, { result.2 with arithDepth := result.2.arithDepth - 1 }) := by
  unfold valueOf
  dsimp only
  rw [strip_name htext, if_neg htext.ne_empty, plainNumber?_name htext, shownSource,
    if_neg hsource, Arith.parse_name htext.isName]
  rfl

/-- **A name as a value stands for the variable of this name**, one level deeper. -/
theorem valueOf_name {deeper : Evaluators} {result : Except Fault Int} (hsource : source ≠ "")
    (htext : IsNameText text)
    (hdepth : (shell.arithDepth : Int) + 1 ≤ shell.store.limits.arithmeticDepth)
    (h : deeper.expression source (.read (.variable text)) shell.deeper = (result, shell.deeper)) :
    deeper.valueOf source (some text) shell = (result, shell) := by
  have hbound : ¬shell.store.limits.arithmeticDepth < ((shell.arithDepth + 1 : ℕ) : Int) := by
    omega
  rw [valueOf_name_run deeper hsource htext, if_neg hbound, h]
  rfl

/-- At the bound there is no deeper level. -/
theorem valueOf_name_tooDeep (deeper : Evaluators) (hsource : source ≠ "")
    (htext : IsNameText text)
    (hdepth : shell.store.limits.arithmeticDepth < (shell.arithDepth : Int) + 1) :
    deeper.valueOf source (some text) shell =
      (.error (.error (.arithmetic source .recursionTooDeep)), shell) := by
  have hbound : shell.store.limits.arithmeticDepth < ((shell.arithDepth + 1 : ℕ) : Int) := by
    omega
  rw [valueOf_name_run deeper hsource htext, if_pos hbound]
  rfl

/-- A variable is read as its text. -/
theorem expr_variable (deeper : Evaluators) (h : shell.store.get? name = .ok (some text)) :
    deeper.expr source (.read (.variable name)) shell =
      deeper.valueOf source (some text) shell := by
  rw [expr, cell, pure_bind, readCell, bind_run_of_ok (query_run_of_ok h)]

/-! ### Chains -/

variable {k levels : ℕ} {names : ℕ → String} (hsource : source ≠ "")
  (hnames : ∀ i ≤ k, IsNameText (names i))
  (hhops : ∀ i < k, shell.store.get? (names i) = .ok (some (names (i + 1))))

include hsource hnames hhops

/-- **A chain of names that ends within the bound stands for the integer at its end.** -/
theorem expr_chain (hend : shell.store.get? (names k) = .ok (some (toString m)))
    (hm : Arith.Fits m) (hlevels : k ≤ levels)
    (hdepth : k = 0 ∨ (shell.arithDepth : Int) + k ≤ shell.store.limits.arithmeticDepth) :
    (evaluators levels).expr source (.read (.variable (names 0))) shell = (.ok m, shell) := by
  induction k generalizing levels names shell with
  | zero =>
      rw [expr_variable _ hend, valueOf_decimal hm]
      rfl
  | succ k ih =>
      obtain ⟨below, rfl⟩ : ∃ below, levels = below + 1 := ⟨levels - 1, by omega⟩
      have hbound := hdepth.resolve_left (Nat.succ_ne_zero k)
      rw [expr_variable _ (hhops 0 (Nat.succ_pos k))]
      apply valueOf_name hsource (hnames 1 (by omega)) (by omega)
      have hdeeper : (shell.deeper.arithDepth : Int) = shell.arithDepth + 1 := rfl
      have hlimit : (shell.deeper.arithDepth : Int) + k ≤ shell.store.limits.arithmeticDepth := by
        omega
      have hbehind := @ih shell.deeper below (fun i => names (i + 1))
        (fun i hi => hnames (i + 1) (by omega)) (fun i hi => hhops (i + 1) (by omega)) hend
        (by omega) (.inr hlimit)
      exact hbehind

/-- **A chain of names that goes on beyond the bound is refused**, whether it ends or not. -/
theorem expr_chain_tooDeep (hk : 0 < k)
    (hlevels : shell.store.limits.arithmeticDepth ≤ (shell.arithDepth : Int) + levels)
    (hdepth : shell.store.limits.arithmeticDepth < (shell.arithDepth : Int) + k) :
    (evaluators levels).expr source (.read (.variable (names 0))) shell =
      (.error (.error (.arithmetic source .recursionTooDeep)), shell) := by
  induction k generalizing levels names shell with
  | zero => exact absurd hk (Nat.lt_irrefl 0)
  | succ k ih =>
      rw [expr_variable _ (hhops 0 hk)]
      by_cases hbound : shell.store.limits.arithmeticDepth < (shell.arithDepth : Int) + 1
      · exact valueOf_name_tooDeep _ hsource (hnames 1 (by omega)) hbound
      · obtain ⟨below, rfl⟩ : ∃ below, levels = below + 1 := ⟨levels - 1, by omega⟩
        apply valueOf_name hsource (hnames 1 (by omega)) (by omega)
        have hdeeper : (shell.deeper.arithDepth : Int) = shell.arithDepth + 1 := rfl
        have hlimit : shell.deeper.store.limits = shell.store.limits := rfl
        have hbehind := @ih shell.deeper below (fun i => names (i + 1))
          (fun i hi => hnames (i + 1) (by omega)) (fun i hi => hhops (i + 1) (by omega))
          (by omega) (by rw [hlimit]; omega) (by rw [hlimit]; omega)
        exact hbehind

end Evaluators

end ShellExpansion
