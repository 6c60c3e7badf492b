import ShellExpansion.Proofs.Session.Listing

/-! # Listed assignments are read back

The line that lists an array as an assignment quotes its values only where it must.  What stands in
it behind the name makes the same array of an unbound name (`Action.assignment_reads_back`), but for
values that are shown without quotes and end with a line end: it separates words where the line is
read, and is lost (`Action.assignment_loses_lineEnd`). -/

namespace ShellExpansion

open Builtin Lexical ArrayLiteral

namespace Action

open Eval

/-- **A listed literal makes the array**, with its values as they are read back, of an unbound
name, and changes no other variable. -/
theorem run_assign_itemsText {quote read : String → String}
    (hquote : ∀ text, ReadsAs (quote text) (read text)) {elements : IndexedArray}
    (hindices : ∀ index ∈ elements.indices, index < 2 ^ 63) {name : String}
    (hname : isIdentifier name = true) {shell : Shell} (hunbound : shell.store.lookup name = none)
    (hdepth : 1 ≤ shell.store.limits.referenceDepth) :
    ∃ reply shell' generation,
      (Action.assign name
          (itemsText quote (elements.entries.map fun entry => (toString entry.1, entry.2)))
          .nearest false).run shell = (.ok reply, shell') ∧
      shell'.store.lookup name = some ⟨.indexed (elements.mapValues read), .none, generation⟩ ∧
      ∀ other, other ≠ name → shell'.store.lookup other = shell.store.lookup other := by
  have hopen : shell.store.Open name := .inl hunbound
  have hliteral := ofText_itemsText hquote (readableKey_of_mem_indexed elements)
  obtain ⟨levels, hlevels⟩ := Evaluators.exists_nesting_eq shell.store.limits
  obtain ⟨prepared, b, hprepare, hget, hattributes, hvalue, hsets⟩ :=
    hopen.prepare_spec hname hdepth
  have hindices' : ∀ index ∈ (elements.mapValues read).indices, index < 2 ^ 63 := by
    rw [IndexedArray.indices_mapValues]
    exact hindices
  have hinsert := Evaluators.insertItems_allEntries levels name hindices'
  have hitems : (evaluators shell.store.limits.nesting).insertItems name b.attributes.integer
      (ofText (itemsText quote
        (elements.entries.map fun entry => (toString entry.1, entry.2)))).items 0 .empty =
      pure (elements.mapValues read) := by
    rw [hlevels, hattributes, hliteral, ← hinsert, IndexedArray.entries_mapValues]
    simp only [List.map_map]
    rfl
  have hrun := (evaluators shell.store.limits.nesting).assignLiteral_indexed_run hprepare hget
    hvalue hitems
  rw [hattributes] at hrun
  have hsets := hsets ⟨.indexed (elements.mapValues read), .none, b.generation + 1⟩
  refine ⟨_, _, b.generation + 1,
    run_assign_of_assignLiteral hname (isLiteral_itemsText _ _) hrun, ?_, fun other hne => ?_⟩
  · exact (hsets.lookup name).trans (if_pos rfl)
  · exact (hsets.lookup other).trans (if_neg hne)

/-- **The line that lists an indexed array is read back**: what it assigns makes an array of an
unbound name at the same indices, with the values without the line ends that no quotes protect.  It
is the same array if and only if there are none of these. -/
theorem assignment_reads_back {s : Store} {a b : String} {found : Binding}
    {elements : IndexedArray} (hfound : s.lookup a = some found)
    (hvalue : found.value = .indexed elements)
    (hindices : ∀ index ∈ elements.indices, index < 2 ^ 63) (hname : isIdentifier b = true)
    {shell : Shell} (hunbound : shell.store.lookup b = none)
    (hdepth : 1 ≤ shell.store.limits.referenceDepth) :
    ∃ text, assignmentLine? s a = some (a ++ "=" ++ text) ∧
      ∃ reply shell' generation elements',
        (Action.assign b text .nearest false).run shell = (.ok reply, shell') ∧
        shell'.store.lookup b = some ⟨.indexed elements', .none, generation⟩ ∧
        elements'.indices = elements.indices ∧ elements'.values = elements.values.map reread ∧
        (elements' = elements ↔ ∀ value ∈ elements.values, ¬LosesLineEnd value) := by
  have hline : assignmentLine? s a = some (assignment a (itemsText quoteIfNeeded
      (elements.entries.map fun entry => (toString entry.1, entry.2)))) := by
    rw [assignmentLine?, hfound, Option.bind_some, hvalue]
    rfl
  obtain ⟨reply, shell', generation, hrun, hlookup, -⟩ :=
    run_assign_itemsText readsAs_quoteIfNeeded hindices hname hunbound hdepth
  refine ⟨_, hline, reply, shell', generation, elements.mapValues reread, hrun, hlookup,
    IndexedArray.indices_mapValues _ _, IndexedArray.values_mapValues _ _, ?_⟩
  rw [IndexedArray.mapValues_eq_self_iff]
  simp only [reread_eq_self_iff]

/-- Values that are shown in quotes, and one that is not. -/
theorem assignment_reads_back_quoted :
    let elements : IndexedArray := ⟨[(0, ""), (5, "it's\n"), (2 ^ 63 - 1, "x.y")], by decide⟩
    let store : Store := ⟨[], ⟨"global", [],
      Table.ofList [("a", ⟨.indexed elements, .none, 0⟩)]⟩, .standard⟩
    let shell : Shell := ⟨store, false, "script", 0⟩
    ∃ text, assignmentLine? store "a" = some ("a" ++ "=" ++ text) ∧
      ∃ reply shell' generation elements',
        (Action.assign "b" text .nearest false).run shell = (.ok reply, shell') ∧
        shell'.store.lookup "b" = some ⟨.indexed elements', .none, generation⟩ ∧
        elements' = elements := by
  intro elements store shell
  have hfound : store.lookup "a" = some ⟨.indexed elements, .none, 0⟩ := by decide
  have hname : isIdentifier "b" = true := by decide
  have hunbound : shell.store.lookup "b" = none := by decide
  obtain ⟨text, hline, reply, shell', generation, elements', hrun, hlookup, -, -, hsame⟩ :=
    assignment_reads_back hfound rfl (by decide) hname hunbound (by decide)
  exact ⟨text, hline, reply, shell', generation, elements', hrun, hlookup, hsame.mpr (by decide)⟩

/-- **A line end is lost** behind a value that is shown without quotes. -/
theorem assignment_loses_lineEnd :
    let elements := IndexedArray.singleton "x\n"
    let store : Store := ⟨[], ⟨"global", [],
      Table.ofList [("a", ⟨.indexed elements, .none, 0⟩)]⟩, .standard⟩
    let shell : Shell := ⟨store, false, "script", 0⟩
    assignmentLine? store "a" = some "a=([0]=x\n)" ∧ store.lookup "b" = none ∧
      ∃ reply shell' generation,
        (Action.assign "b" "([0]=x\n)" .nearest false).run shell = (.ok reply, shell') ∧
        shell'.store.lookup "b" =
          some ⟨.indexed (IndexedArray.singleton "x"), .none, generation⟩ := by
  intro elements store shell
  have hread : elements.mapValues reread = IndexedArray.singleton "x" := by decide
  have hindices : ∀ index ∈ elements.indices, index < 2 ^ 63 := by decide
  have hname : isIdentifier "b" = true := by decide
  have hunbound : shell.store.lookup "b" = none := by decide
  obtain ⟨reply, shell', generation, hrun, hlookup, -⟩ :=
    run_assign_itemsText readsAs_quoteIfNeeded hindices hname hunbound (by decide)
  rw [hread] at hlookup
  exact ⟨by decide, by decide, reply, shell', generation, hrun, hlookup⟩

end Action

end ShellExpansion
