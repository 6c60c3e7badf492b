import ShellExpansion.Proofs.Builtin.Declaration
import ShellExpansion.Proofs.Session.Running
import ShellExpansion.Session.Basic

/-! # Declarations recreate arrays

The line that lists an array as a declaration is made of the flags of the array and of its entries,
with their values in double quotes.  The command that the line spells binds an unbound name to the
same array with the same attributes: to an indexed array always
(`Action.declaration_recreates_indexed`), to an associative array if its keys can be read back
without quotes (`Action.declaration_recreates_associative`), which a key with a space cannot
(`Action.declaration_misreads_key`). -/

namespace ShellExpansion

open Builtin Lexical

variable {name : String} {b : Binding} {entries : List (String × String)} {shell : Shell}

/-- The line that lists an array as a declaration. -/
theorem declarationText_of_hasEntries (hentries : b.value.HasEntries entries) (name : String) :
    declarationText name b =
      "declare -" ++ b.flags ++ " " ++ assignment name (itemsText doubleQuote entries) := by
  unfold declarationText
  rw [flagsWord, if_neg hentries.flags_ne, hentries.assignedText?_eq]
  rw [show "declare -" = "declare " ++ "-" from rfl]
  simp only [String.append_assoc]

namespace Action

open Eval

/-- **A listed declaration recreates an array** whose keys are readable, and changes no other
variable. -/
theorem run_declaration (hname : isIdentifier name = true)
    (hentries : b.value.HasEntries entries) (hinteger : b.attributes.integer = false)
    (hkeys : ∀ entry ∈ entries, ReadableKey entry.1) (hunbound : shell.store.lookup name = none)
    (hdepth : 1 ≤ shell.store.limits.referenceDepth) :
    ∃ shell', (Action.command .declare
          ["-" ++ b.flags, assignment name (itemsText doubleQuote entries)]).run shell =
        (.ok (.outcome Outcome.success), shell') ∧
      shell'.store.lookup name = some { b with generation := 1 } ∧
      ∀ other, other ≠ name → shell'.store.lookup other = shell.store.lookup other := by
  have hquote : ∀ text, ReadsAs (doubleQuote text) text := QuoteStyle.double.readsAs
  have hitems := ArrayLiteral.ofText_itemsText hquote hkeys
  obtain ⟨levels, hlevels⟩ := Evaluators.exists_nesting_eq shell.store.limits
  obtain ⟨store, hrun, hsets⟩ := declare_run levels hname hentries hinteger
    (ArrayLiteral.isLiteral_itemsText _ _) hitems hunbound hdepth
  refine ⟨{ shell with store := store }, ?_,
    Store.lookup_of_find?_current hsets.find?_current, fun other hne => hsets.lookup_of_ne hne⟩
  rw [run_eq rfl, hlevels]
  exact bind_run_of_ok hrun

/-- **The declaration of an indexed array recreates it**: the line has the flags of the array and a
literal in it, and the command of this line binds an unbound name to the array, with its
attributes. -/
theorem declaration_recreates_indexed {elements : IndexedArray} (hname : isIdentifier name = true)
    (hvalue : b.value = .indexed elements) (hindices : ∀ index ∈ elements.indices, index < 2 ^ 63)
    (hinteger : b.attributes.integer = false) (hunbound : shell.store.lookup name = none)
    (hdepth : 1 ≤ shell.store.limits.referenceDepth) :
    ∃ items,
      declarationText name b =
        "declare -" ++ b.flags ++ " " ++ (name ++ "=" ++ ("(" ++ items ++ ")")) ∧
      ∃ shell',
        (Action.command .declare ["-" ++ b.flags, name ++ "=" ++ ("(" ++ items ++ ")")]).run shell =
          (.ok (.outcome Outcome.success), shell') ∧
        shell'.store.lookup name = some ⟨.indexed elements, b.attributes, 1⟩ ∧
        ∀ other, other ≠ name → shell'.store.lookup other = shell.store.lookup other := by
  have hentries : b.value.HasEntries
      (elements.entries.map fun entry => (toString entry.1, entry.2)) := by
    rw [hvalue]
    exact .indexed hindices
  have hrun := run_declaration hname hentries hinteger (readableKey_of_mem_indexed elements)
    hunbound hdepth
  rw [hvalue] at hrun
  exact ⟨_, declarationText_of_hasEntries hentries name, hrun⟩

/-- A read-only array with a gap up to the largest index, and values with quotes and a line end. -/
theorem declaration_recreates_indexed_largestIndex :
    let elements : IndexedArray := ⟨[(3, "it's \"x\""), (2 ^ 63 - 1, "$x\n")], by decide⟩
    let b : Binding := ⟨.indexed elements, ⟨false, true, true⟩, 5⟩
    let shell := Shell.new ⟨[], false, [], "script", .standard⟩
    b.flags = "arx" ∧ ∃ items,
      declarationText "n_1" b =
        "declare -" ++ b.flags ++ " " ++ ("n_1" ++ "=" ++ ("(" ++ items ++ ")")) ∧
      ∃ shell',
        (Action.command .declare
            ["-" ++ b.flags, "n_1" ++ "=" ++ ("(" ++ items ++ ")")]).run shell =
          (.ok (.outcome Outcome.success), shell') ∧
        shell'.store.lookup "n_1" = some ⟨.indexed elements, b.attributes, 1⟩ ∧
        ∀ other, other ≠ "n_1" → shell'.store.lookup other = shell.store.lookup other :=
  ⟨by decide, declaration_recreates_indexed (by decide) rfl (by decide) rfl (by decide) (by decide)⟩

/-- **The declaration of an associative array recreates it** if its keys are readable: the command
of the line binds an unbound name to the array, with its attributes and its keys in their order. -/
theorem declaration_recreates_associative {elements : Table String}
    (hname : isIdentifier name = true) (hvalue : b.value = .associative elements)
    (hkeys : ∀ key ∈ elements.keys, ReadableKey key) (hinteger : b.attributes.integer = false)
    (hunbound : shell.store.lookup name = none)
    (hdepth : 1 ≤ shell.store.limits.referenceDepth) :
    ∃ items,
      declarationText name b =
        "declare -" ++ b.flags ++ " " ++ (name ++ "=" ++ ("(" ++ items ++ ")")) ∧
      ∃ shell',
        (Action.command .declare ["-" ++ b.flags, name ++ "=" ++ ("(" ++ items ++ ")")]).run shell =
          (.ok (.outcome Outcome.success), shell') ∧
        shell'.store.lookup name = some ⟨.associative elements, b.attributes, 1⟩ ∧
        ∀ other, other ≠ name → shell'.store.lookup other = shell.store.lookup other := by
  have hentries : b.value.HasEntries elements.entries := by
    rw [hvalue]
    exact .associative elements
  have hkeys : ∀ entry ∈ elements.entries, ReadableKey entry.1 :=
    fun entry hentry => hkeys entry.1 (List.mem_map_of_mem hentry)
  have hrun := run_declaration hname hentries hinteger hkeys hunbound hdepth
  rw [hvalue] at hrun
  exact ⟨_, declarationText_of_hasEntries hentries name, hrun⟩

/-- Keys without a meaning of their own, one of them empty, not in the order of the alphabet. -/
theorem declaration_recreates_associative_emptyKey :
    let elements := Table.ofList [("b.1", "it's"), ("", "$x\n"), ("@", "")]
    let b : Binding := ⟨.associative elements, ⟨false, false, true⟩, 0⟩
    let shell := Shell.new ⟨[], false, [], "script", .standard⟩
    b.flags = "Ax" ∧ ∃ items,
      declarationText "m" b =
        "declare -" ++ b.flags ++ " " ++ ("m" ++ "=" ++ ("(" ++ items ++ ")")) ∧
      ∃ shell',
        (Action.command .declare ["-" ++ b.flags, "m" ++ "=" ++ ("(" ++ items ++ ")")]).run shell =
          (.ok (.outcome Outcome.success), shell') ∧
        shell'.store.lookup "m" = some ⟨.associative elements, b.attributes, 1⟩ ∧
        ∀ other, other ≠ "m" → shell'.store.lookup other = shell.store.lookup other := by
  have hkeys : ∀ key ∈ (Table.ofList [("b.1", "it's"), ("", "$x\n"), ("@", "")]).keys,
      ReadableKey key := by
    have hchars : ∀ key ∈ (Table.ofList [("b.1", "it's"), ("", "$x\n"), ("@", "")]).keys,
        key.toList.all isKeyChar = true := by decide
    exact fun key hkey => .of_forall (hchars key hkey)
  exact ⟨by decide, declaration_recreates_associative (by decide) rfl hkeys rfl (by decide)
    (by decide)⟩

/-- **A key with a space is not read back**: the declaration of an array with this one key makes an
array with another key. -/
theorem declaration_misreads_key :
    let b : Binding := ⟨.associative (Table.ofList [("a b", "v")]), .none, 0⟩
    let shell := Shell.new ⟨[], false, [], "script", .standard⟩
    let shell' := ((Action.command .declare ["-A", "m=([a b]=\"v\")"]).run shell).2
    declarationText "m" b = "declare -A m=([a b]=\"v\")" ∧
      shell.store.lookup "m" = none ∧
      shell'.store.lookup "m" =
        some ⟨.associative (Table.ofList [("[a", "b]=v")]), .none, 1⟩ := by
  decide +kernel

end Action

end ShellExpansion
