import ShellExpansion.Proofs.Eval.NameChain
import ShellExpansion.Proofs.Store.Open
import ShellExpansion.Proofs.Session.Running
import ShellExpansion.Session.Basic

/-! # Chains of names under the bound

Where a variable holds the name of another one, an expression that names the first stands for what
the last variable of the chain holds.  The bound on levels of such values says how long a chain may
be, exactly, and so a chain that comes back to one of its names is refused
(`Action.arithmetic_chain`). -/

namespace ShellExpansion

/-- The variable is no reference, and reads as the text. -/
def Store.Stores (s : Store) (name text : String) : Prop :=
  ∃ b, s.lookup name = some b ∧ b.value.scalar? = some text

variable {shell : Shell} {name text : String}

theorem Store.Stores.get?_eq {s : Store} (h : s.Stores name text)
    (hreferences : 1 ≤ s.limits.referenceDepth) : s.get? name = .ok (some text) := by
  obtain ⟨b, hlookup, hscalar⟩ := h
  have hreference : b.value.isReference = false := by
    cases hvalue : b.value with
    | reference target =>
        rw [hvalue] at hscalar
        cases hscalar
    | _ => rfl
  have hlink := link?_eq_none hlookup hreference
  rw [Store.get?_of_resolve (Store.resolve_of_link?_eq_none hreferences hlink), hlookup,
    Option.bind_some, hscalar]

namespace Action

open Eval

/-- A name is evaluated as the variable. -/
theorem run_arithmetic_name (hname : IsNameText name) (shell : Shell) {levels : ℕ}
    (hlevels : shell.store.limits.nesting = levels + 1) :
    (Action.arithmetic name).run shell =
      (do return .integer (← (evaluators levels).expr name (.read (.variable name))) : Eval Reply)
        shell := by
  rw [run_eq rfl, hlevels, perform]
  unfold Evaluators.evaluate
  rw [Arith.parse_name hname.isName]
  rfl

/-- **A chain of names has the integer at its end just if the bound admits it**: every name behind
the first takes one level.  A chain without an end is refused.  In no case is the shell changed. -/
theorem arithmetic_chain (hreferences : 1 ≤ shell.store.limits.referenceDepth)
    (hdepth : shell.arithDepth = 0) :
    (∀ (names : ℕ → String) (k : ℕ) (m : Int), (∀ i ≤ k, IsNameText (names i)) →
      (∀ i < k, shell.store.Stores (names i) (names (i + 1))) →
      shell.store.Stores (names k) (toString m) → Arith.Fits m →
      (Action.arithmetic (names 0)).run shell =
        if k = 0 ∨ (k : Int) ≤ shell.store.limits.arithmeticDepth then
          (.ok (.integer m), shell)
        else (.error (.error (.arithmetic (names 0) .recursionTooDeep)), shell)) ∧
    ∀ names : ℕ → String, (∀ i, IsNameText (names i)) →
      (∀ i, shell.store.Stores (names i) (names (i + 1))) →
      (Action.arithmetic (names 0)).run shell =
        (.error (.error (.arithmetic (names 0) .recursionTooDeep)), shell) := by
  obtain ⟨levels, hlevels⟩ := Evaluators.exists_nesting_eq shell.store.limits
  have henough : shell.store.limits.arithmeticDepth.toNat ≤ levels := by
    have hnesting : 1000 + shell.store.limits.arithmeticDepth.toNat = levels + 1 := hlevels
    omega
  have hget {names : ℕ → String} {i : ℕ} {text : String}
      (h : shell.store.Stores (names i) text) : shell.store.get? (names i) = .ok (some text) :=
    h.get?_eq hreferences
  constructor
  · intro names k m hnames hhops hend hm
    have hname := hnames 0 (Nat.zero_le k)
    rw [run_arithmetic_name hname shell hlevels, bind_run]
    split_ifs with hbound
    · rw [Evaluators.expr_chain hname.ne_empty hnames (fun i hi => hget (hhops i hi)) (hget hend) hm
        (by omega) (by rw [hdepth]; omega)]
      rfl
    · rw [Evaluators.expr_chain_tooDeep hname.ne_empty hnames (fun i hi => hget (hhops i hi))
        (by omega) (by rw [hdepth]; omega) (by rw [hdepth]; omega)]
  · intro names hnames hhops
    have hbeyond : shell.store.limits.arithmeticDepth <
        (shell.arithDepth : Int) + (shell.store.limits.arithmeticDepth.toNat + 1 : ℕ) := by
      omega
    rw [run_arithmetic_name (hnames 0) shell hlevels, bind_run,
      Evaluators.expr_chain_tooDeep (hnames 0).ne_empty (fun i _ => hnames i)
        (fun i _ => hget (hhops i)) (Nat.succ_pos _) (by rw [hdepth]; omega) hbeyond]

/-- A chain of three names needs two levels, and a variable that holds its own name is refused. -/
theorem arithmetic_chain_of_three :
    let shell (bound : Int) := Shell.new ⟨[("x", "y"), ("y", "z"), ("z", "-9223372036854775808"),
      ("loop", "loop")], false, [], "bash", ⟨1000, 100, bound, 10485760⟩⟩
    (Action.arithmetic "x").run (shell 2) = (.ok (.integer (-9223372036854775808)), shell 2) ∧
    (Action.arithmetic "x").run (shell 1) =
      (.error (.error (.arithmetic "x" .recursionTooDeep)), shell 1) ∧
    (Action.arithmetic "loop").run (shell 2) =
      (.error (.error (.arithmetic "loop" .recursionTooDeep)), shell 2) := by
  intro shell
  have hnames : ∀ i ≤ 2, IsNameText (["x", "y", "z"].getD i "")
    | 0, _ => isNameText_of_all rfl (by decide)
    | 1, _ => isNameText_of_all rfl (by decide)
    | 2, _ => isNameText_of_all rfl (by decide)
  have hhops (bound : Int) : ∀ i < 2,
      (shell bound).store.Stores (["x", "y", "z"].getD i "") (["x", "y", "z"].getD (i + 1) "")
    | 0, _ => ⟨_, rfl, rfl⟩
    | 1, _ => ⟨_, rfl, rfl⟩
  have hend (bound : Int) :
      (shell bound).store.Stores "z" (toString (-9223372036854775808 : Int)) :=
    ⟨_, rfl, rfl⟩
  have hfits : Arith.Fits (-9223372036854775808) := by decide
  have hbounded (bound : Int) :=
    (@arithmetic_chain (shell bound) (show (1 : Int) ≤ 100 by decide) rfl).1
      (fun i => ["x", "y", "z"].getD i "") 2 _ hnames (hhops bound) (hend bound) hfits
  refine ⟨hbounded 2, hbounded 1, ?_⟩
  exact (@arithmetic_chain (shell 2) (by decide) rfl).2 (fun _ => "loop")
    (fun _ => isNameText_of_all rfl (by decide)) fun _ => ⟨_, rfl, rfl⟩

/-- **The bounds matter**: a variable that holds an integer is read on no level at all, so the bound
may be negative; and where a chain of references may have no name, no variable is read. -/
theorem arithmetic_chain_needs_bounds :
    (let shell := Shell.new ⟨[("x", "5")], false, [], "bash", ⟨1000, 100, -1, 10485760⟩⟩
     shell.store.Stores "x" (toString (5 : Int)) ∧
      shell.store.limits.arithmeticDepth < (0 : ℕ) ∧
      (Action.arithmetic "x").run shell = (.ok (.integer 5), shell)) ∧
    let shell := Shell.new ⟨[("x", "5")], false, [], "bash", ⟨1000, 0, 128, 10485760⟩⟩
    shell.store.Stores "x" (toString (5 : Int)) ∧
      (0 : ℕ) ≤ shell.store.limits.arithmeticDepth ∧
      (Action.arithmetic "x").run shell =
        (.error (.error (.limit (.referenceDepth "x"))), shell) := by
  have hname : IsNameText "x" := isNameText_of_all rfl (by decide)
  constructor
  · intro shell
    have hstores : shell.store.Stores "x" (toString (5 : Int)) := ⟨_, rfl, rfl⟩
    have hget := hstores.get?_eq (show (1 : Int) ≤ 100 by decide)
    refine ⟨hstores, by decide, ?_⟩
    rw [run_arithmetic_name hname shell rfl, bind_run, Evaluators.expr_variable _ hget,
      Evaluators.valueOf_decimal (by decide)]
    rfl
  · intro shell
    refine ⟨⟨_, rfl, rfl⟩, by decide, ?_⟩
    rw [run_arithmetic_name hname shell rfl]
    rfl

end Action

end ShellExpansion
