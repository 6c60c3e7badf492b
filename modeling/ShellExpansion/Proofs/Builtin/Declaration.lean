import ShellExpansion.Builtin.Command
import ShellExpansion.Proofs.Eval.Entries
import ShellExpansion.Proofs.Lexical.Literal
import ShellExpansion.Proofs.Parameter.Elements
import ShellExpansion.Proofs.Store.Declaring

/-! # Declaring a variable anew

The flags of a binding, given as options, ask for its kind and for its attributes
(`Options.parse_flags`, `declarationOf_flags`).  A name that is not bound gets a value of the kind
first, then the entries of the literal, and is marked read-only last (`declareOperand_run`). -/

namespace ShellExpansion

/-! ### Flags -/

theorem Attribute.letter_injective {a a' : Attribute} (h : a.letter = a'.letter) : a = a' := by
  cases a <;> cases a' <;> first | rfl | cases h

theorem Attribute.mem_all (a : Attribute) : a ∈ all := by
  cases a <;> decide

namespace Binding

variable {b : Binding} {letter : Char}

theorem toList_flags (b : Binding) :
    b.flags.toList = (Attribute.all.filter b.has).map Attribute.letter := by
  rw [flags, String.toList_ofList]

theorem exists_of_mem_flags (h : letter ∈ b.flags.toList) :
    ∃ a : Attribute, b.has a = true ∧ a.letter = letter := by
  rw [toList_flags] at h
  obtain ⟨a, ha, hletter⟩ := List.mem_map.mp h
  exact ⟨a, (List.mem_filter.mp ha).2, hletter⟩

theorem letter_mem_flags_iff (a : Attribute) : a.letter ∈ b.flags.toList ↔ b.has a = true := by
  constructor
  · intro h
    obtain ⟨a', ha', hletter⟩ := exists_of_mem_flags h
    rwa [Attribute.letter_injective hletter] at ha'
  · intro h
    rw [toList_flags]
    exact List.mem_map_of_mem (List.mem_filter.mpr ⟨a.mem_all, h⟩)

theorem not_mem_flags (h : Attribute.ofLetter? letter = none) : letter ∉ b.flags.toList := by
  intro hmem
  obtain ⟨a, -, hletter⟩ := exists_of_mem_flags hmem
  exact List.find?_eq_none.mp h a a.mem_all (decide_eq_true hletter)

end Binding

/-- An array has a flag. -/
theorem Value.HasEntries.flags_ne {b : Binding} {entries : List (String × String)}
    (h : b.value.HasEntries entries) : b.flags ≠ "" := by
  obtain ⟨letter, hletter⟩ : ∃ letter, letter ∈ b.flags.toList := by
    obtain ⟨value, attributes, generation⟩ := b
    cases h with
    | indexed => exact ⟨_, (Binding.letter_mem_flags_iff .indexed).mpr rfl⟩
    | associative => exact ⟨_, (Binding.letter_mem_flags_iff .associative).mpr rfl⟩
  intro hflags
  rw [hflags] at hletter
  exact List.not_mem_nil hletter

namespace Builtin.Options

/-- The options that letters set when they are given one after the other. -/
def ofLetters (letters : List Char) : Options :=
  ⟨(letters.map fun letter => (letter, true)).reverse⟩

theorem lookup_map_true (letters : List Char) (letter : Char) :
    (letters.map fun letter => (letter, true)).lookup letter =
      if letter ∈ letters then some true else none := by
  induction letters with
  | nil => rfl
  | cons first letters ih =>
      rw [List.map_cons, List.lookup_cons]
      by_cases h : letter = first
      · simp [h]
      · rw [beq_false_of_ne h]
        simp [h, ih]

theorem lookup_ofLetters (letters : List Char) (letter : Char) :
    (ofLetters letters).states.lookup letter = if letter ∈ letters then some true else none := by
  rw [ofLetters, ← List.map_reverse, lookup_map_true]
  simp only [List.mem_reverse]

theorem isSet_ofLetters (letters : List Char) (letter : Char) :
    (ofLetters letters).isSet letter = decide (letter ∈ letters) := by
  rw [isSet, lookup_ofLetters]
  split_ifs with h
  · exact (decide_eq_true h).symm
  · exact (decide_eq_false h).symm

theorem isCleared_ofLetters (letters : List Char) (letter : Char) :
    (ofLetters letters).isCleared letter = false := by
  rw [isCleared, lookup_ofLetters]
  split_ifs <;> rfl

/-- An attribute is asked for by the flags of a binding that has it. -/
theorem isSet_flags (b : Binding) (a : Attribute) :
    (ofLetters b.flags.toList).isSet a.letter = b.has a := by
  rw [isSet_ofLetters]
  simp only [Binding.letter_mem_flags_iff, Bool.decide_eq_true]

theorem giveLetters_eq {command : String} {allowed letters : List Char}
    (h : ∀ letter ∈ letters, allowed.contains letter = true) (options : Options) :
    giveLetters command allowed '-' options letters =
      .ok ⟨(ofLetters letters).states ++ options.states⟩ := by
  induction letters generalizing options with
  | nil => rfl
  | cons letter letters ih =>
      rw [giveLetters, if_pos (h letter List.mem_cons_self),
        ih fun other hother => h other (List.mem_cons_of_mem letter hother)]
      simp [give, ofLetters]

/-- A dash in front of letters makes an option word. -/
theorem letters?_append {letters : String} (hne : letters ≠ "") (hequals : '=' ∉ letters.toList) :
    letters? ("-" ++ letters) = some ('-', letters.toList) := by
  obtain ⟨letter, rest, hletters⟩ : ∃ letter rest, letters.toList = letter :: rest := by
    apply List.exists_cons_of_ne_nil
    rwa [Ne, String.toList_eq_nil_iff]
  have htext : ("-" ++ letters).toList = '-' :: letter :: rest := by simp [hletters]
  have hsign : ('-' = '-' ∨ '-' = '+') ∧ '=' ∉ '-' :: letter :: rest := by
    rw [hletters] at hequals
    exact ⟨.inl rfl, fun hmem => hequals ((List.mem_cons.mp hmem).resolve_left (by decide))⟩
  rw [letters?, htext, hletters]
  exact if_pos hsign

/-- **The flags of a binding are read as the options that it needs.** -/
theorem parse_flags {b : Binding} (hflags : b.flags ≠ "") (command : String) {allowed : List Char}
    (hallowed : ∀ a : Attribute, allowed.contains a.letter = true) {word : String}
    (hword : letters? word = none) (hend : word ≠ "--") :
    parse command allowed ["-" ++ b.flags, word] = .ok (ofLetters b.flags.toList, [word]) := by
  have hletters := letters?_append hflags (Binding.not_mem_flags (by decide))
  have hdash : "-" ++ b.flags ≠ "--" := by
    intro heq
    rw [heq] at hletters
    have hflag : '-' ∈ b.flags.toList := by
      rw [← (Prod.mk.inj (Option.some.inj hletters)).2]
      decide
    exact Binding.not_mem_flags (by decide) hflag
  have hgiven : ∀ letter ∈ b.flags.toList, allowed.contains letter = true := by
    intro letter hletter
    obtain ⟨a, -, rfl⟩ := Binding.exists_of_mem_flags hletter
    exact hallowed a
  rw [parse, parse.go, if_neg hdash, hletters]
  dsimp only
  rw [giveLetters_eq hgiven, List.append_nil]
  dsimp only
  rw [parse.go, if_neg hend, hword]
  rfl

end Builtin.Options

namespace Builtin

/-! ### What the options ask for -/

theorem kindOf_flags (b : Binding) :
    kindOf (Options.ofLetters b.flags.toList) = b.value.kind? := by
  have hreference := Options.isSet_flags b .reference
  have hassociative := Options.isSet_flags b .associative
  have hindexed := Options.isSet_flags b .indexed
  simp only [Attribute.letter, Binding.has] at hreference hassociative hindexed
  rw [kindOf, hreference, hassociative, hindexed]
  cases b.value <;> rfl

theorem declarationOf_flags (b : Binding) (scope : Scope) :
    declarationOf (Options.ofLetters b.flags.toList) scope false =
      ⟨b.value.kind?, [Attribute.integer, .exported].filter b.has, [], scope, false⟩ := by
  have hset : ∀ a : Attribute,
      (Options.ofLetters b.flags.toList).isSet a.letter = b.has a := Options.isSet_flags b
  have hcleared : ∀ a : Attribute,
      (Options.ofLetters b.flags.toList).isCleared a.letter = false :=
    fun a => Options.isCleared_ofLetters _ _
  simp only [declarationOf, kindOf_flags, hset, hcleared, List.filter_false]

/-- What a declaration adds to no attributes is what the binding has, read-only aside. -/
theorem redeclared_flags (b : Binding) (kind : Option Attribute) (scope : Scope) :
    Store.redeclared .none ⟨kind, [Attribute.integer, .exported].filter b.has, [], scope, false⟩ =
      { b.attributes with readonly := false } := by
  obtain ⟨value, ⟨integer, readonly, exported⟩, generation⟩ := b
  cases integer <;> cases exported <;> rfl

/-! ### Operands -/

section operands

variable {name : String} (hname : isIdentifier name = true) (text : String)

include hname

theorem ofWord_assignment : Operand.ofWord (assignment name text) = ⟨name, some text, false⟩ := by
  have hequals : ∀ c ∈ name.toList, (c != '=') = true := by
    intro c hc
    refine bne_iff_ne.mpr ?_
    rintro rfl
    exact not_mem_of_isIdentifier hname (by decide) (by decide) hc
  have htext : (assignment name text).toList = name.toList ++ '=' :: text.toList := by
    simp [assignment]
  have hdrop : (assignment name text).toList.dropWhile (· != '=') = '=' :: text.toList := by
    rw [htext, List.dropWhile_append_of_pos hequals]
    rfl
  have htake : (assignment name text).toList.takeWhile (· != '=') = name.toList := by
    rw [htext, List.takeWhile_append_of_pos hequals]
    simp
  have hplus : ∀ rest, name.toList.reverse ≠ '+' :: rest := by
    intro rest hreverse
    have hmem : '+' ∈ name.toList.reverse := by simp [hreverse]
    exact not_mem_of_isIdentifier hname (by decide) (by decide) (List.mem_reverse.mp hmem)
  simp only [Operand.ofWord, hdrop, htake]
  rw [String.ofList_toList, String.ofList_toList]

/-- An assignment is an operand and no option. -/
theorem letters?_assignment :
    Options.letters? (assignment name text) = none ∧ assignment name text ≠ "--" := by
  obtain ⟨c, rest, back, hchars, hc, -⟩ := exists_of_isIdentifier hname
  have htext : (assignment name text).toList = c :: (rest ++ back ++ '=' :: text.toList) := by
    simp [assignment, hchars]
  have hne : ∀ sign : Char, isNameStart sign = false → c ≠ sign := by
    rintro sign hsign rfl
    rw [hc] at hsign
    cases hsign
  have hsign : ¬(c = '-' ∨ c = '+') :=
    not_or.mpr ⟨hne '-' (by decide), hne '+' (by decide)⟩
  constructor
  · unfold Options.letters?
    split
    · next heq =>
        rw [htext] at heq
        obtain ⟨rfl, -⟩ := List.cons.inj heq
        exact if_neg fun h => hsign h.1
    · rfl
  · intro heq
    rw [heq] at htext
    exact hsign (.inl (List.cons.inj htext).1.symm)

end operands

/-! ### Runs -/

open Eval Evaluators

/-- An assignment that makes no reference declares the name, assigns to it, and marks it
read-only if that is asked for. -/
theorem declareOperand_assignment (deeper : Evaluators) (command : String) {options : Options}
    {request : Store.Declaration} {name : String} (text : String)
    (hname : isIdentifier name = true) (hkind : (request.kind == some .reference) = false)
    (hcleared : options.isCleared 'n' = false) :
    declareOperand deeper command options request (assignment name text) = (do
      discard (partialChange (·.declare name request))
      discard (deeper.assign name text request.scope false)
      if options.isSet 'r' then
        discard (partialChange
          (·.declare name ⟨none, [.readonly], [], request.scope, false⟩))) := by
  unfold declareOperand
  simp only [ofWord_assignment hname, splitSubscript_of_isIdentifier hname, hname, hkind, hcleared,
    Bool.not_true, Bool.false_and, Bool.false_eq_true, if_false]

/-- An operand that is carried out leaves nothing to report. -/
theorem reportEach_singleton {α : Type} {action : α → Eval Unit} {operand : α}
    {shell shell' : Shell} (describe : Error → String)
    (h : action operand shell = (.ok (), shell')) :
    reportEach (fun operand => reportOf describe (action operand)) [operand] shell =
      (.ok Outcome.success, shell') := by
  have hreport : reportOf describe (action operand) shell = (.ok none, shell') := by
    unfold reportOf
    rw [h]
  unfold reportEach
  rw [List.mapM_cons, List.mapM_nil, bind_assoc, bind_run_of_ok hreport]
  rfl

section runs

variable (levels : Nat) {name text : String} {b : Binding} {entries : List (String × String)}
  {shell : Shell} (hname : isIdentifier name = true) (hentries : b.value.HasEntries entries)
  (hinteger : b.attributes.integer = false) (hliteral : ArrayLiteral.isLiteral text = true)
  (hitems : ArrayLiteral.ofText text = ⟨entries.map fun entry => ⟨some entry.1, entry.2⟩⟩)
  (hunbound : shell.store.lookup name = none)
  (hdepth : 1 ≤ shell.store.limits.referenceDepth)

include hname hentries hinteger hliteral hitems hunbound hdepth

/-- **A declaration with the flags of a binding and its entries makes the binding.** -/
theorem declareOperand_run :
    ∃ store, declareOperand (evaluators (levels + 1)) "declare" (Options.ofLetters b.flags.toList)
        (declarationOf (Options.ofLetters b.flags.toList) .current false)
        (assignment name text) shell = (.ok (), { shell with store := store }) ∧
      Store.Sets shell.store shell.store.depth name { b with generation := 1 } store := by
  obtain ⟨kind, empty, hkind, hne, hvalue, hempty, hemptyvalue, hconverted⟩ :=
    hentries.exists_converted
  have hreference : (b.value.kind? == some .reference) = false := by
    rw [hkind]
    exact beq_false_of_ne fun heq => hne (Option.some.inj heq)
  rw [declarationOf_flags,
    declareOperand_assignment _ _ text hname hreference (Options.isCleared_ofLetters _ _)]
  obtain ⟨store₁, hdeclare, hsets₁⟩ := Store.declare_new
    ⟨b.value.kind?, [Attribute.integer, .exported].filter b.has, [], .current, false⟩
    hname rfl hunbound rfl hkind (hconverted name)
  rw [redeclared_flags] at hsets₁
  have hdepth₁ : 1 ≤ store₁.limits.referenceDepth := by
    rw [hsets₁.limits]
    exact hdepth
  have hprepare : ({ shell with store := store₁ } : Shell).store.prepare name .current = _ :=
    Store.prepare_current hsets₁.find?_current hemptyvalue rfl hdepth₁
  have hget : store₁.get ⟨.current, name⟩ = _ := Store.get_of_at? hsets₁.find?_current
  have hassign := assignLiteral_entries_run hprepare hget levels hentries
    (hempty.trans hkind.symm) hinteger
  have hsets₂ := hsets₁.put_current
    ⟨b.value, { b.attributes with readonly := false }, 0 + 1⟩
  rw [bind_run, discard_run, partialChange_run, hdeclare]
  dsimp only
  rw [bind_run, discard_run, assign_of_isLiteral _ hname hliteral, hitems, hassign]
  dsimp only
  have hmark : (Options.ofLetters b.flags.toList).isSet 'r' = b.attributes.readonly :=
    Options.isSet_flags b .readonly
  have hbinding : { b with generation := 1 } =
      ⟨b.value, ⟨b.attributes.integer, b.attributes.readonly, b.attributes.exported⟩, 1⟩ := rfl
  rw [hmark, hbinding]
  cases b.attributes.readonly with
  | false => exact ⟨_, rfl, hsets₂⟩
  | true =>
      have hagain := Store.declare_again ⟨none, [.readonly], [], .current, false⟩ hname rfl
        hsets₂.find?_current hvalue rfl rfl
      rw [if_pos rfl, discard_run, partialChange_run, hagain]
      exact ⟨_, rfl, hsets₂.put_current _⟩

/-- **The command declares the binding**, and has nothing to report. -/
theorem declare_run :
    ∃ store, declare (evaluators (levels + 1)) ["-" ++ b.flags, assignment name text] shell =
        (.ok Outcome.success, { shell with store := store }) ∧
      Store.Sets shell.store shell.store.depth name { b with generation := 1 } store := by
  obtain ⟨store, hrun, hsets⟩ := declareOperand_run levels hname hentries hinteger
    hliteral hitems hunbound hdepth
  refine ⟨store, ?_, hsets⟩
  obtain ⟨hword, hend⟩ := letters?_assignment hname text
  have hallowed : ∀ a : Attribute, "aAginprx".toList.contains a.letter = true := by
    intro a
    cases a <;> decide
  have hparse := Options.parse_flags hentries.flags_ne "declare" hallowed hword hend
  have hlist : wantsListing (Options.ofLetters b.flags.toList) [assignment name text] = false := by
    rw [wantsListing, Options.isSet_ofLetters,
      decide_eq_false (Binding.not_mem_flags (by decide))]
    rfl
  have houter : (Options.ofLetters b.flags.toList).isSet 'g' = false := by
    rw [Options.isSet_ofLetters, decide_eq_false (Binding.not_mem_flags (by decide))]
  have hkinds : ((Options.ofLetters b.flags.toList).isSet 'a' &&
      (Options.ofLetters b.flags.toList).isSet 'A') = false := by
    rw [show (Options.ofLetters b.flags.toList).isSet 'a' = b.has .indexed from
        Options.isSet_flags b .indexed,
      show (Options.ofLetters b.flags.toList).isSet 'A' = b.has .associative from
        Options.isSet_flags b .associative]
    unfold Binding.has
    cases b.value <;> rfl
  have hreport := reportEach_singleton Error.report hrun
  unfold declare withOptions
  rw [hparse]
  dsimp only
  rw [hlist, houter]
  unfold declareAll
  rw [hkinds]
  exact hreport

end runs

end Builtin

end ShellExpansion
