import ShellExpansion.Proofs.Eval.Listing
import ShellExpansion.Proofs.Lexical.Literal
import ShellExpansion.Proofs.Session.Running
import ShellExpansion.Session.Basic

/-! # Arrays survive quoting

A list of values that is quoted and assigned as a literal is read back by the expansion of all
elements, and the expansion that quotes them gives words that make the same list when they are
assigned in turn (`Action.list_survives_quoting`).  The bounds matter: the indices are results of an
expansion as the values are, and numbers that are written; and no name can be assigned to where no
chain of references may have a name (`Action.list_needs_bounds`). -/

namespace ShellExpansion

open Lexical ArrayLiteral

variable {name : String} {shell : Shell} {elements : IndexedArray} {values : List String}

/-- Quotes make no text shorter. -/
theorem length_le_length_singleQuote (text : String) :
    text.length ≤ (singleQuote text).length := by
  have hbody : ∀ cs : List Char, cs.length ≤ (singleQuoteBody cs).length := by
    intro cs
    induction cs with
    | nil => exact Nat.le_refl 0
    | cons c cs ih =>
        have hfirst : 1 ≤ (if c = '\'' then ['\'', '\\', '\'', '\''] else [c]).length := by
          split_ifs <;> simp
        have hbody : singleQuoteBody (c :: cs) =
            (if c = '\'' then ['\'', '\\', '\'', '\''] else [c]) ++ singleQuoteBody cs :=
          List.flatMap_cons
        rw [hbody, List.length_append, List.length_cons]
        omega
  have htext := hbody text.toList
  rw [String.length_toList] at htext
  have hquoted : (singleQuote text).length = (singleQuoteBody text.toList).length + 2 := by
    rw [singleQuote, String.length_ofList, List.length_append, List.length_cons,
      List.length_singleton]
  omega

namespace Action

open Eval

theorem run_expand_of_loneParameter? {text : String} {parameter : Parameter} {words : List String}
    (htext : Evaluators.loneParameter? text = some (.ok parameter))
    (h : (evaluators shell.store.limits.nesting).expandParameter parameter shell =
      (.ok words, shell)) :
    (Action.expand text).run shell = (.ok (.texts words), shell) := by
  rw [run_expand, Evaluators.expand, htext]
  exact bind_run_of_ok h

/-- A literal that is assigned to a name and does not lead elsewhere. -/
theorem run_assign_of_assignLiteral {text : String} {store : Store}
    (hname : isIdentifier name = true) (htext : isLiteral text = true)
    (h : (evaluators shell.store.limits.nesting).assignLiteral name (ofText text) .nearest false
      shell = (.ok ⟨.nearest, name⟩, { shell with store := store })) :
    (Action.assign name text .nearest false).run shell =
      (.ok (.binding name (store.lookup name)), { shell with store := store }) := by
  rw [← Evaluators.assign_of_isLiteral _ hname htext] at h
  exact run_assign_nearest h

/-- **Quoted values are assigned as a literal** to an open name, which leads to the array of the
values then; no other name changes. -/
theorem run_assign_literalText (style : QuoteStyle) (hname : IsPlainName name)
    (hdepth : 1 ≤ shell.store.limits.referenceDepth) (hopen : shell.store.Open name)
    (values : List String) :
    ∃ (elements : IndexedArray) (reply : Reply) (shell' : Shell), elements.Lists values ∧
      (Action.assign name (literalText (values.map style.quote)) .nearest false).run shell =
        (.ok reply, shell') ∧
      Evaluators.LeadsTo shell' name elements ∧ shell'.store.limits = shell.store.limits ∧
      ∀ other, shell.store.Open other → shell'.store.Open other := by
  obtain ⟨elements, generation, store, hlists, hrun, hsets⟩ :=
    (evaluators shell.store.limits.nesting).assignLiteral_run hname.identifier hdepth hopen values
  rw [← ofText_literalText style] at hrun
  have hassign := run_assign_of_assignLiteral hname.identifier (isLiteral_literalText _) hrun
  have hlookup : store.lookup name = some ⟨.indexed elements, .none, generation⟩ := by
    rw [hsets.lookup, if_pos rfl]
  have hlimits := hsets.limits
  have hresolve := Store.resolve_of_link?_eq_none (hlimits ▸ hdepth)
    (Store.link?_eq_none hlookup rfl)
  refine ⟨elements, _, { shell with store := store }, hlists, hassign,
    ⟨⟨.indexed elements, .none, generation⟩, ?_, rfl⟩, hlimits,
    fun other hother => hother.of_sets hsets⟩
  rw [Store.binding?_of_resolve hresolve, hlookup]

section expansions

variable (hname : IsPlainName name) (h : Evaluators.LeadsTo shell name elements)
  (hlists : elements.Lists values)

include hname h hlists

theorem run_expand_elementsText
    (hlength : ∀ value ∈ values, (value.length : Int) ≤ shell.store.limits.stringLength) :
    (Action.expand (elementsText name)).run shell = (.ok (.texts values), shell) := by
  obtain rfl := hlists.values_eq
  apply run_expand_of_loneParameter? (Evaluators.loneParameter?_elements hname)
  exact Evaluators.expandParameter_elements _ hname h hlength

theorem run_expand_quotedElementsText
    (hlength : ∀ value ∈ values,
      ((singleQuote value).length : Int) ≤ shell.store.limits.stringLength) :
    (Action.expand (quotedElementsText name)).run shell =
      (.ok (.texts (values.map singleQuote)), shell) := by
  obtain rfl := hlists.values_eq
  apply run_expand_of_loneParameter? (Evaluators.loneParameter?_quotedElements hname)
  exact Evaluators.expandParameter_quotedElements _ hname h hlength

theorem expand_keysText (deeper : Evaluators)
    (hwritable : ∀ index < values.length, Text.isWritable index = true) :
    deeper.expand (keysText name) shell =
      words ((List.range values.length).map toString) false shell := by
  have hindices : ∀ index ∈ elements.indices, Text.isWritable index = true := by
    rw [hlists.indices_eq]
    exact fun index hindex => hwritable index (List.mem_range.mp hindex)
  rw [Evaluators.expand, Evaluators.loneParameter?_keys hname]
  dsimp only
  rw [deeper.expandParameter_keys h hindices, hlists.indices_eq]

theorem run_expand_keysText
    (hindices : ∀ index < values.length, Text.isWritable index = true ∧
      ((toString index).length : Int) ≤ shell.store.limits.stringLength) :
    (Action.expand (keysText name)).run shell =
      (.ok (.texts ((List.range values.length).map toString)), shell) := by
  have hkeys : ∀ key ∈ (List.range values.length).map toString,
      (key.length : Int) ≤ shell.store.limits.stringLength := by
    intro key hkey
    obtain ⟨index, hindex, rfl⟩ := List.mem_map.mp hkey
    exact (hindices index (List.mem_range.mp hindex)).2
  have hexpand := expand_keysText hname h hlists (evaluators shell.store.limits.nesting)
    fun index hindex => (hindices index hindex).1
  rw [run_expand]
  exact bind_run_of_ok (hexpand.trans (words_run hkeys))

/-- A list that is so long that its last indices cannot be written has no keys. -/
theorem run_expand_keysText_unwritable {index : Nat} (hindex : index < values.length)
    (hlong : Text.isWritable index = false) :
    (Action.expand (keysText name)).run shell = (.error .numberTooLong, shell) := by
  have hmem : index ∈ elements.indices := by
    rw [hlists.indices_eq]
    exact List.mem_range.mpr hindex
  rw [run_expand, Evaluators.expand, Evaluators.loneParameter?_keys hname]
  exact bind_run_of_error (Evaluators.expandParameter_keys_unwritable _ h hmem hlong)

end expansions

/-- **Arrays survive quoting and reading back**: quoted values that are assigned to an unbound name
as a literal are its elements, at the indices from zero on, and the words of its quoted elements
make the same array when they are assigned to an unbound name in turn. -/
theorem list_survives_quoting {a b : String} (ha : IsPlainName a) (hb : IsPlainName b)
    (hunbound : shell.store.lookup a = none) (hunbound' : shell.store.lookup b = none)
    (hdepth : 1 ≤ shell.store.limits.referenceDepth)
    (hquoted : ∀ value ∈ values,
      ((singleQuote value).length : Int) ≤ shell.store.limits.stringLength)
    (hindices : ∀ index < values.length, Text.isWritable index = true ∧
      ((toString index).length : Int) ≤ shell.store.limits.stringLength) :
    ∃ reply shell₁,
      (Action.assign a (literalText (values.map singleQuote)) .nearest false).run shell =
        (.ok reply, shell₁) ∧
      (Action.expand (elementsText a)).run shell₁ = (.ok (.texts values), shell₁) ∧
      (Action.expand (keysText a)).run shell₁ =
        (.ok (.texts ((List.range values.length).map toString)), shell₁) ∧
      ∃ words reply' shell₂,
        (Action.expand (quotedElementsText a)).run shell₁ = (.ok (.texts words), shell₁) ∧
        (Action.assign b (literalText words) .nearest false).run shell₁ = (.ok reply', shell₂) ∧
        (Action.expand (elementsText b)).run shell₂ = (.ok (.texts values), shell₂) := by
  have hvalues : ∀ value ∈ values, (value.length : Int) ≤ shell.store.limits.stringLength := by
    intro value hvalue
    have hle := length_le_length_singleQuote value
    have hbound := hquoted value hvalue
    omega
  obtain ⟨elements, reply, shell₁, hlists, hassign, hleads, hlimits, hopen⟩ :=
    run_assign_literalText .single ha hdepth (.inl hunbound) values
  have hdepth₁ : 1 ≤ shell₁.store.limits.referenceDepth := by
    rw [hlimits]
    exact hdepth
  obtain ⟨elements', reply', shell₂, hlists', hassign', hleads', hlimits', -⟩ :=
    run_assign_literalText .single hb hdepth₁ (hopen b (.inl hunbound')) values
  have hkeys := run_expand_keysText ha hleads hlists (hlimits ▸ hindices)
  have hwords := run_expand_quotedElementsText ha hleads hlists (hlimits ▸ hquoted)
  have hread := run_expand_elementsText ha hleads hlists (hlimits ▸ hvalues)
  have hread' := run_expand_elementsText hb hleads' hlists' (hlimits' ▸ hlimits ▸ hvalues)
  exact ⟨reply, shell₁, hassign, hread, hkeys, _, reply', shell₂, hwords, hassign', hread'⟩

/-- Values with a quote, a bracket, nothing and a line end, under a bound that just admits them. -/
theorem list_survives_quoting_justAdmitted :
    let shell := Shell.new ⟨[], true, [], "script", ⟨0, 1, 0, 9⟩⟩
    let values := ["it's", "[0]=x", "", "(\n)"]
    ∃ reply shell₁,
      (Action.assign "a" (literalText (values.map singleQuote)) .nearest false).run shell =
        (.ok reply, shell₁) ∧
      (Action.expand (elementsText "a")).run shell₁ = (.ok (.texts values), shell₁) ∧
      (Action.expand (keysText "a")).run shell₁ = (.ok (.texts ["0", "1", "2", "3"]), shell₁) ∧
      ∃ words reply' shell₂,
        (Action.expand (quotedElementsText "a")).run shell₁ = (.ok (.texts words), shell₁) ∧
        (Action.assign "b_1" (literalText words) .nearest false).run shell₁ =
          (.ok reply', shell₂) ∧
        (Action.expand (elementsText "b_1")).run shell₂ = (.ok (.texts values), shell₂) :=
  list_survives_quoting ⟨by decide, by decide⟩ ⟨by decide, by decide⟩ (by decide) (by decide)
    (by decide) (by decide) (by decide)

/-- Empty values, as many as there are numbers that can be written, and one more. -/
theorem list_beyond_numerals (last : Nat) (hlast : last = 10 ^ Text.maxDecimalDigits) :
    let shell := Shell.new ⟨[], false, [], "script", ⟨1000, 100, 128, 4301⟩⟩
    let values := List.replicate (last + 1) ""
    (∀ value ∈ values, ((singleQuote value).length : Int) ≤ shell.store.limits.stringLength) ∧
      (∀ index < values.length,
        ((toString index).length : Int) ≤ shell.store.limits.stringLength) ∧
      ∃ reply shell₁,
        (Action.assign "a" (literalText (values.map singleQuote)) .nearest false).run shell =
          (.ok reply, shell₁) ∧
        (Action.expand (keysText "a")).run shell₁ = (.error .numberTooLong, shell₁) := by
  intro shell values
  have hname : IsPlainName "a" := ⟨by decide, by decide⟩
  have hcount : values.length = last + 1 := List.length_replicate
  have hlong : Text.isWritable last = false := by
    rw [Bool.eq_false_iff, ne_eq, Text.isWritable_iff, hlast]
    exact Nat.lt_irrefl _
  have hdepth : 1 ≤ shell.store.limits.referenceDepth := by decide
  have hopen : shell.store.Open "a" := .inl (by decide)
  obtain ⟨elements, reply, shell₁, hlists, hassign, hleads, -, -⟩ :=
    run_assign_literalText .single hname hdepth hopen values
  refine ⟨?_, ?_, reply, shell₁, hassign, ?_⟩
  · intro value hvalue
    obtain rfl := List.eq_of_mem_replicate hvalue
    decide
  · intro index hindex
    have hle : index ≤ last := by
      rw [hcount] at hindex
      exact Nat.le_of_lt_succ hindex
    have hpos : 0 < last := hlast ▸ Nat.pow_pos (by decide)
    have hdigits : (toString index).length ≤ Text.maxDecimalDigits + 1 := by
      rw [← String.length_toList, Nat.toString_eq_ofList_toDigits, String.toList_ofList,
        Nat.length_toDigits_le_iff (by decide) (by decide), Nat.pow_succ, ← hlast]
      omega
    exact Int.ofNat_le.mpr hdigits
  · exact run_expand_keysText_unwritable hname hleads hlists (hcount ▸ Nat.lt_succ_self last) hlong

/-- **The bounds matter**: of a hundred and one empty values, whose quoted forms have two characters
each, the last index has three; a list may have more values than there are numbers that can be
written; and where a chain of references may have no name, no list can be assigned. -/
theorem list_needs_bounds :
    (let shell := Shell.new ⟨[], false, [], "script", ⟨1000, 100, 128, 2⟩⟩
     let values := List.replicate 101 ""
     (∀ value ∈ values, ((singleQuote value).length : Int) ≤ shell.store.limits.stringLength) ∧
      ∃ reply shell₁,
        (Action.assign "a" (literalText (values.map singleQuote)) .nearest false).run shell =
          (.ok reply, shell₁) ∧
        (Action.expand (keysText "a")).run shell₁ =
          (.error (.error (.limit (.stringLength 3 2))), shell₁)) ∧
    (let shell := Shell.new ⟨[], false, [], "script", ⟨1000, 100, 128, 4301⟩⟩
     let values := List.replicate (10 ^ Text.maxDecimalDigits + 1) ""
     (∀ value ∈ values, ((singleQuote value).length : Int) ≤ shell.store.limits.stringLength) ∧
      (∀ index < values.length,
        ((toString index).length : Int) ≤ shell.store.limits.stringLength) ∧
      ∃ reply shell₁,
        (Action.assign "a" (literalText (values.map singleQuote)) .nearest false).run shell =
          (.ok reply, shell₁) ∧
        (Action.expand (keysText "a")).run shell₁ = (.error .numberTooLong, shell₁)) ∧
    let shell := Shell.new ⟨[], false, [], "script", ⟨1000, 0, 128, 100⟩⟩
    (Action.assign "a" (literalText []) .nearest false).run shell =
      (.error (.error (.limit (.referenceDepth "a"))), shell) := by
  refine ⟨?_, list_beyond_numerals _ rfl, rfl⟩
  intro shell values
  have hname : IsPlainName "a" := ⟨by decide, by decide⟩
  have hopen : shell.store.Open "a" := .inl (by decide)
  obtain ⟨elements, reply, shell₁, hlists, hassign, hleads, hlimits, -⟩ :=
    run_assign_literalText .single hname (by decide) hopen values
  have hbound : shell₁.store.limits.stringLength = 2 := by rw [hlimits]; rfl
  have hkeys : (List.range values.length).map toString =
      (List.range 100).map toString ++ toString 100 :: [] := by
    rw [show values.length = 100 + 1 from List.length_replicate, List.range_succ, List.map_append]
    rfl
  have hfront : ∀ key ∈ (List.range 100).map toString,
      (key.length : Int) ≤ shell₁.store.limits.stringLength := by
    rw [hbound]
    decide +kernel
  have hlong : shell₁.store.limits.stringLength < (toString 100).length := by
    rw [hbound]
    decide
  refine ⟨by decide, reply, shell₁, hassign, ?_⟩
  have hkeysText := expand_keysText hname hleads hlists
    (evaluators shell₁.store.limits.nesting) (by decide)
  rw [hkeys, words_run_of_long hfront hlong, hbound] at hkeysText
  rw [run_expand]
  exact bind_run_of_error hkeysText

end Action

end ShellExpansion
