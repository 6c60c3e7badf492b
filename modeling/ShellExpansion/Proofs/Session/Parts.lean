import ShellExpansion.Proofs.Eval.Concatenation
import ShellExpansion.Proofs.Eval.Substring
import ShellExpansion.Proofs.Parameter.Writing
import ShellExpansion.Proofs.Session.Lone

/-! # Parts that are written in words

A parameter expansion that is read back from its text is expanded in a word as the parameter that
it is (`Evaluators.expandWord_canonical`).  So a part of a variable that is written with numbers has
the characters that they say (`Evaluators.expandWord_part`), and the characters in front of a
position and those from it on, written in one word, are the value (`Action.run_word_parts`). -/

namespace ShellExpansion

open Lexical

namespace Parameter

variable {parameter : Parameter}

/-- What stands between the braces of a canonical expansion is read back. -/
theorem parse_content (h : parameter.Canonical) :
    parse (String.ofList parameter.content) = .ok parameter := by
  have hcontent := content?_content h
  rw [parse_eq, String.toList_ofList]
  rcases inner_cases parameter.content with hinner | ⟨body, hbody⟩
  · rw [hinner, hcontent]
    rfl
  · rw [hbody, content?_braced] at hcontent
    cases hcontent

theorem text_eq (parameter : Parameter) :
    parameter.text = "$\x7b" ++ String.ofList parameter.content ++ "\x7d" := by
  rw [← String.toList_inj]
  simp [text]

end Parameter

namespace Evaluators

open Eval Word

variable (deeper : Evaluators) {parameter : Parameter}

/-- **A canonical expansion is expanded in a word as its parameter**, if its braces match. -/
theorem expandWord_canonical (h : parameter.Canonical)
    (hcloses : Closes '\x7b' '\x7d' parameter.content) :
    deeper.expandWord .text parameter.text = deeper.expandToText parameter := by
  have hinside : Closes '\x7b' '\x7d' (String.ofList parameter.content).toList := by
    rwa [String.toList_ofList]
  rw [Parameter.text_eq, expandWord_braced deeper hinside, Parameter.parse_content h]
  rfl

theorem isWhole_text (hcloses : Closes '\x7b' '\x7d' parameter.content) :
    IsWhole parameter.text.toList := by
  rw [Parameter.text, String.toList_ofList]
  exact .braced hcloses .nil

end Evaluators

/-! ### Parts of a variable -/

namespace Parameter

/-- The part of a variable from a position on, with so many characters if a number is given. -/
def part (name : String) (offset : ℕ) (count : Option ℕ) : Parameter :=
  ⟨name, none, false, some (.substring (toString offset) (count.map toString))⟩

variable {name : String} (h : IsPlainName name) (offset : ℕ) (count : Option ℕ)

include h

theorem canonical_part : (part name offset count).Canonical := by
  have hoffset : IsOffset (toString offset).toList :=
    isOffset_of_forall (Text.forall_mem_toString (by decide) offset)
  have hdigits : ∀ c ∈ (toString offset).toList, missingAction? c = none :=
    Text.forall_mem_toString (by decide) offset
  have hfirst : ∀ c ∈ (toString offset).toList.head?, missingAction? c = none :=
    fun c hc => hdigits c (List.mem_of_mem_head? hc)
  constructor
  case name => exact .inl h.exists_cons
  case subscript => exact nofun
  case indirect => exact nofun
  case names => exact nofun
  case keys => exact nofun
  case operation =>
    rintro operation ⟨⟩
    cases count with
    | none => exact ⟨hfirst, hoffset.colonFree⟩
    | some count => exact ⟨hfirst, hoffset⟩

theorem closes_part : Closes '\x7b' '\x7d' (part name offset count).content := by
  have hdigits (n : ℕ) : (toString n).toList.all Evaluators.isUnmarked = true :=
    List.all_eq_true.mpr (Text.forall_mem_toString (by decide) n)
  have hcolon : Evaluators.isUnmarked ':' = true := by decide
  have hbehind : (Operation.substring (toString offset) (count.map toString)).text.all
      Evaluators.isUnmarked = true := by
    cases count <;>
      simp only [Operation.text, Option.map, List.all_cons, List.all_append, hdigits, hcolon,
        Bool.and_self]
  exact ((Evaluators.passes_name h).append (Evaluators.passes_of_unmarked hbehind)).closes_braces

end Parameter

namespace Evaluators

open Eval Word

variable {name value : String} {shell : Shell} (hname : IsPlainName name)
  (hvalue : shell.store.get? name = .ok (some value))

include hname hvalue

theorem expandParameter_part {offset : ℕ} {count : Option ℕ} (hoffset : offset < 2 ^ 63)
    (hcount : ∀ n ∈ count, n < 2 ^ 63) (levels : ℕ) :
    (evaluators (levels + 1)).expandParameter (Parameter.part name offset count) shell =
      (.ok [charactersBetween value offset (count.elim value.length fun n => offset + n)],
        shell) := by
  have hstart := congrFun (evaluate_toString hoffset levels) shell
  cases count with
  | none =>
      have hpart := expandParameter_from hname.identifier hvalue hstart
      rw [partStart_natCast] at hpart
      exact hpart
  | some n =>
      have hlength := congrFun (evaluate_toString (hcount n rfl) levels) shell
      exact expandParameter_counted hname.identifier hvalue hstart hlength

/-- A part that is written in a word is expanded to its characters. -/
theorem expandWord_part {offset : ℕ} {count : Option ℕ} (hoffset : offset < 2 ^ 63)
    (hcount : ∀ n ∈ count, n < 2 ^ 63) (levels : ℕ) :
    (evaluators (levels + 1)).expandWord .text (Parameter.part name offset count).text shell =
      (.ok (charactersBetween value offset (count.elim value.length fun n => offset + n)),
        shell) := by
  rw [expandWord_canonical _ (Parameter.canonical_part hname offset count)
    (Parameter.closes_part hname offset count), expandToText,
    bind_run_of_ok (expandParameter_part hname hvalue hoffset hcount levels)]
  rfl

end Evaluators

namespace Action

open Eval

/-- **The characters in front of a position and those from it on, written in one word, are the
value** of the variable, also where the position is beyond it. -/
theorem run_word_parts {name value : String} {shell : Shell} {k : ℕ} (hname : IsPlainName name)
    (hvalue : shell.store.get? name = .ok (some value)) (hk : k < 2 ^ 63) :
    (Action.word .text ("$\x7b" ++ name ++ ":0:" ++ toString k ++ "\x7d" ++
      ("$\x7b" ++ name ++ ":" ++ toString k ++ "\x7d"))).run shell =
        (.ok (.text (some value)), shell) := by
  obtain ⟨levels, hlevels⟩ := Evaluators.exists_nesting_eq shell.store.limits
  have htext : "$\x7b" ++ name ++ ":0:" ++ toString k ++ "\x7d" ++
      ("$\x7b" ++ name ++ ":" ++ toString k ++ "\x7d") =
        (Parameter.part name 0 (some k)).text ++ (Parameter.part name k none).text := by
    rw [← String.toList_inj]
    simp [Parameter.part, Parameter.text, Parameter.content, Parameter.written, withSubscript,
      Operation.text]
  have hzero : 0 < 2 ^ 63 := by decide
  have hcount : ∀ n ∈ some k, n < 2 ^ 63 := by
    rintro n ⟨⟩
    exact hk
  have hnone : ∀ n ∈ (none : Option ℕ), n < 2 ^ 63 := by
    rintro n ⟨⟩
  have hfront := Evaluators.expandWord_part hname hvalue hzero hcount levels
  have hback := Evaluators.expandWord_part hname hvalue hk hnone levels
  rw [htext, run_word, hlevels, Evaluators.expandWord_whole _ _
    (Evaluators.isWhole_text (Parameter.closes_part hname 0 (some k))), bind_assoc,
    bind_run_of_ok hfront, bind_assoc, bind_run_of_ok hback]
  simp only [Option.elim, Nat.cast_zero, Int.zero_add]
  show (Except.ok (Reply.text (some (_ ++ _))), shell) = _
  rw [charactersBetween_append]

end Action

end ShellExpansion
