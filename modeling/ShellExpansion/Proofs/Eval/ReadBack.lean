import ShellExpansion.Proofs.Eval.Exchange

/-! # Reading behind an assignment

What an assignment in an expression stores is read back by the name or the element that it was
stored under (`Evaluators.assigned_reads_back`).  The integer leaves as decimal text and comes back
through the reading of constants, and it does so for every integer of the range, whatever kind of
variable takes the text and whatever the evaluation of the value did before. -/

namespace ShellExpansion

open Arith (Expr Target)

/-! ### Names that take a value -/

namespace Store

variable {s : Store} {name : String}

/-- The name leads to a variable that may be written, which is no reference, or to an identifier
that is not bound. -/
def Writable (s : Store) (name : String) : Prop :=
  ∃ final found, s.resolve name = .ok (final, found) ∧
    (∀ b ∈ found, b.value.isReference = false ∧ b.attributes.readonly = false) ∧
    (found = none → isIdentifier final = true)

theorem Writable.exists_prepare (h : s.Writable name) :
    ∃ place prepared, s.prepare name .nearest = .ok (place, prepared) ∧
      (prepared.get place).value.isReference = false := by
  obtain ⟨final, found, hresolve, hfound, hname⟩ := h
  cases found with
  | some b =>
      obtain ⟨hreference, hreadonly⟩ := hfound b rfl
      refine ⟨_, _, prepare_eq_of_resolve hresolve hreadonly, ?_⟩
      have hat : s.at? ⟨.nearest, final⟩ = some b := (resolve_spec hresolve).2.symm
      rw [get_of_at? hat, hreference]
  | none =>
      have hat : s.at? ⟨.nearest, final⟩ = none := (resolve_spec hresolve).2.symm
      have hprepare : s.prepare name .nearest =
          .ok (⟨.nearest, final⟩, s.put ⟨.nearest, final⟩ .unset) := by
        unfold prepare
        rw [place_nearest hresolve]
        dsimp only
        rw [hat]
        exact if_pos (hname rfl)
      refine ⟨_, _, hprepare, ?_⟩
      rw [get_of_at? (at?_put ..)]
      rfl

/-- A name that may be written takes every text. -/
theorem Writable.exists_assign (h : s.Writable name) (text : String) :
    ∃ place s', s.assign name text .nearest false = .ok (place, s') := by
  obtain ⟨place, prepared, hprepare, hvalue⟩ := h.exists_prepare
  unfold assign
  rw [hprepare]
  dsimp only
  cases hold : (prepared.get place).value with
  | reference target =>
      rw [hold] at hvalue
      cases hvalue
  | _ => exact ⟨_, _, rfl⟩

end Store

/-- The target reads as the integer, inside expressions and as a text of its own, and reading it
changes nothing. -/
structure Arith.Target.Reads (target : Target) (n : Int) (shell : Shell) : Prop where
  expr (deeper : Evaluators) (source : String) :
    deeper.expr source (.read target) shell = (.ok n, shell)
  evaluate (levels : ℕ) {text : String} (hparse : Arith.parse text = .ok (.read target)) :
    (evaluators (levels + 1)).evaluate text shell = (.ok n, shell)

namespace Evaluators

open Eval

variable {levels : ℕ} {deeper : Evaluators} {source array subscript : String} {target : Target}
  {value : Expr} {cell : Cell} {k m n : Int} {shell between behind shell' : Shell}

/-! ### Reading -/

/-- What reads as the decimal text of an integer reads as the integer. -/
theorem reads_of_text? (hn : Arith.Fits n)
    (hcell : ∀ (deeper : Evaluators) source,
      deeper.cell source target shell = (.ok cell, shell))
    (htext : cell.text? shell = (.ok (some (toString n)), shell)) : target.Reads n shell := by
  have hread (deeper : Evaluators) (source : String) :
      deeper.expr source (.read target) shell = (.ok n, shell) := by
    rw [expr, bind_run_of_ok (hcell deeper source)]
    exact readCell_of_text? hn htext
  refine ⟨hread, fun levels text hparse => ?_⟩
  unfold evaluate
  rw [hparse]
  exact hread (evaluators levels) text

/-- An index that is a constant of the range selects its element. -/
theorem cell_constant (harray : shell.store.LeadsToIndexed array) (hk : Arith.Fits k)
    (deeper : Evaluators) (source : String) :
    deeper.cell source (.element array (.number k) subscript) shell =
      (.ok (.element array (.index k)), shell) := by
  rw [cell_indexed harray, expr, Arith.wrap_of_fits hk]
  rfl

/-! ### Assigning -/

/-- An assignment evaluates the value, finds the cell, and writes to it. -/
theorem expr_assign_eq_ok
    (h : deeper.expr source (.assign none target value) shell = (.ok n, shell')) :
    ∃ between cell behind, deeper.expr source value shell = (.ok n, between) ∧
      deeper.cell source target between = (.ok cell, behind) ∧
      deeper.writeCell n cell behind = (.ok (), shell') := by
  unfold expr at h
  obtain ⟨right, between, hvalue, h⟩ := bind_eq_ok h
  obtain ⟨rfl, cell, behind, hcell, hwrite⟩ := writeTarget_eq_ok h
  exact ⟨between, cell, behind, hvalue, hcell, hwrite⟩

theorem expr_assign_run (hvalue : deeper.expr source value shell = (.ok n, between))
    (hcell : deeper.cell source target between = (.ok cell, behind))
    (hwrite : deeper.writeCell n cell behind = (.ok (), shell')) :
    deeper.expr source (.assign none target value) shell = (.ok n, shell') := by
  unfold expr
  rw [bind_run_of_ok hvalue]
  dsimp only
  rw [pure_bind, bind_run_of_ok hcell, bind_run_of_ok hwrite]
  rfl

/-- **An element takes every integer of the range**, if its array may be written. -/
theorem exists_setElement (levels : ℕ) (hwritable : shell.store.Writable array)
    (harray : shell.store.LeadsToIndexed array) (hm : Arith.Fits m) (index : ℕ) :
    ∃ place shell', (evaluators (levels + 1)).setElement array (.index index) (toString m) false
      .nearest shell = (.ok place, shell') := by
  obtain ⟨place, prepared, hprepare, -⟩ := hwritable.exists_prepare
  obtain ⟨final, found, hresolve, hkind⟩ := harray
  obtain ⟨rfl, hget, -⟩ := Store.prepare_of_resolve hresolve hprepare
  have hkind := Store.getD_unset_of_forall hkind (.inl rfl)
  unfold setElement
  rw [bind_run_of_ok (change_run_of_ok hprepare), store_bind_run]
  dsimp only
  generalize hb : found.getD .unset = b at hget hkind
  have hput (elements : IndexedArray) : (do
      setStore (prepared.putValue ⟨.nearest, final⟩ (.indexed elements))
      let text ← (evaluators (levels + 1)).stored b.attributes.integer (toString m) none
      putElement ⟨.nearest, final⟩ b (·.insertIndex index text)
      return ⟨.nearest, final⟩ : Eval Store.Place) { shell with store := prepared } =
        (.ok ⟨.nearest, final⟩, { shell with
          store := (prepared.putValue ⟨.nearest, final⟩ (.indexed elements)).putValue
            ⟨.nearest, final⟩ (.indexed (elements.insert index (toString m))) }) := by
    rw [stored_decimal hm, pure_bind]
    show (putElement ⟨.nearest, final⟩ b (·.insertIndex index (toString m)) >>=
      fun _ => pure ⟨.nearest, final⟩ : Eval Store.Place) { shell with
        store := prepared.putValue ⟨.nearest, final⟩ (.indexed elements) } = _
    rw [bind_run_of_ok (@putElement_opened { shell with store := prepared } _ _ hget _ _ _)]
    rfl
  rw [hget]
  cases hvalue : b.value with
  | reference target => simp [hvalue, Value.kind?] at hkind
  | associative elements => simp [hvalue, Value.kind?] at hkind
  | unset => exact ⟨_, _, hput _⟩
  | scalar text => exact ⟨_, _, hput _⟩
  | indexed elements => exact ⟨_, _, hput _⟩

/-! ### Reading behind an assignment -/

/-- A variable that was assigned to reads as the integer. -/
theorem assigned_variable_reads {name : String}
    (h : (evaluators levels).expr source (.assign none (.variable name) value) shell =
      (.ok n, shell')) :
    shell'.store.get? name = .ok (some (toString n)) ∧ (Target.variable name).Reads n shell' := by
  have hn : Arith.Fits n := (evaluators_inRange levels).expr source _ h
  obtain ⟨between, cell, behind, -, hcell, hwrite⟩ := expr_assign_eq_ok h
  cases hcell
  obtain ⟨place, hassign⟩ := discard_eq_ok hwrite
  exact ⟨assign_reads hassign, reads_of_text? hn (fun _ _ => rfl) (writeCell_reads hn hwrite)⟩

/-- An element that was assigned to under a constant index reads as the integer. -/
theorem assigned_element_reads (hk : Arith.Fits k)
    (hvalue : (evaluators levels).expr source value shell = (.ok n, between))
    (harray : shell.store.LeadsToIndexed array ∨ between.store.LeadsToIndexed array)
    (h : (evaluators levels).expr source (.assign none (.element array (.number k) subscript) value)
      shell = (.ok n, shell')) :
    getElement? array (.index k) shell' = (.ok (some (toString n)), shell') ∧
      (Target.element array (.number k) subscript).Reads n shell' := by
  have hn : Arith.Fits n := (evaluators_inRange levels).expr source _ h
  have hwrites := (evaluators_onlyWrite levels).respectAll
  have harray : between.store.LeadsToIndexed array :=
    harray.elim (fun hbefore => hbefore.after ((hwrites.expr source value).of_run hvalue).store) id
  obtain ⟨between', cell, behind, hvalue', hcell, hwrite⟩ := expr_assign_eq_ok h
  obtain rfl : between = between' := by
    rw [hvalue] at hvalue'
    exact (Prod.mk.inj hvalue').2
  have hafter := hwrites.writeCell n hcell
  rw [hwrite] at hafter
  rw [cell_constant harray hk] at hcell
  cases hcell
  have htext := writeCell_reads hn hwrite
  exact ⟨htext, reads_of_text? hn (cell_constant (harray.after hafter.store) hk) htext⟩

/-- **What an assignment stores is read back.**  A variable that an assignment gave an integer has
the decimal text of it, and reads as the integer; so has and does an element under a constant index,
if its array is an indexed one, or is none yet, before the value is evaluated or behind that.
Nothing but the value keeps the assignment from giving the integer, if the name that is assigned to
may be written behind the value. -/
theorem assigned_reads_back (levels : ℕ) (source : String) (value : Expr) (shell : Shell) :
    (∀ name n shell',
      (evaluators levels).expr source (.assign none (.variable name) value) shell =
        (.ok n, shell') →
      shell'.store.get? name = .ok (some (toString n)) ∧
        (Target.variable name).Reads n shell') ∧
    (∀ array subscript k n between shell', 0 ≤ k → k < 2 ^ 63 →
      (evaluators levels).expr source value shell = (.ok n, between) →
      shell.store.LeadsToIndexed array ∨ between.store.LeadsToIndexed array →
      (evaluators levels).expr source (.assign none (.element array (.number k) subscript) value)
        shell = (.ok n, shell') →
      getElement? array (.index k) shell' = (.ok (some (toString n)), shell') ∧
        (Target.element array (.number k) subscript).Reads n shell') ∧
    ∀ name n between, (evaluators levels).expr source value shell = (.ok n, between) →
      between.store.Writable name →
      (∃ shell', (evaluators levels).expr source (.assign none (.variable name) value) shell =
        (.ok n, shell')) ∧
      ∀ subscript k, 0 < levels → 0 ≤ k → k < 2 ^ 63 → between.store.LeadsToIndexed name →
        ∃ shell', (evaluators levels).expr source
          (.assign none (.element name (.number k) subscript) value) shell = (.ok n, shell') := by
  refine ⟨fun name n shell' h => assigned_variable_reads h,
    fun array subscript k n between shell' hlow hhigh hvalue harray h =>
      assigned_element_reads ⟨by omega, hhigh⟩ hvalue harray h,
    fun name n between hvalue hwritable => ⟨?_, fun subscript k hlevels hlow hhigh harray => ?_⟩⟩
  · obtain ⟨place, store, hassign⟩ := hwritable.exists_assign (toString n)
    have hwrite : (evaluators levels).writeCell n (.variable name) between =
        (.ok (), { between with store := store }) := by
      rw [writeCell, discard_run, change_run, hassign]
    exact ⟨_, expr_assign_run hvalue rfl hwrite⟩
  · obtain ⟨levels, rfl⟩ : ∃ below, levels = below + 1 := ⟨levels - 1, by omega⟩
    obtain ⟨index, rfl⟩ := Int.eq_ofNat_of_zero_le hlow
    have hn : Arith.Fits n := (evaluators_inRange _).expr source value hvalue
    obtain ⟨place, shell', hset⟩ := exists_setElement levels hwritable harray hn index
    have hk : Arith.Fits index := ⟨by omega, hhigh⟩
    have hwrite : (evaluators (levels + 1)).writeCell n (.element name (.index index)) between =
        (.ok (), shell') := by
      rw [writeCell, discard_run, hset]
    exact ⟨shell', expr_assign_run hvalue (cell_constant harray hk _ _) hwrite⟩

/-- The least integer is stored in an unbound variable that another one names, and in an element of
an array with the integer attribute. -/
theorem assigned_reads_back_least :
    let array : Binding := ⟨.indexed (IndexedArray.singleton "3"), ⟨true, false, false⟩, 0⟩
    let shell : Shell := ⟨⟨[], ⟨"global", [],
      (Table.empty.insert "r" ⟨.reference "x", .none, 0⟩).insert "a" array⟩, .standard⟩, false,
      "script", 0⟩
    let value : Expr := .number 9223372036854775808
    (∃ shell', (evaluators 2).expr "" (.assign none (.variable "r") value) shell =
        (.ok (-9223372036854775808), shell') ∧
      shell'.store.get? "r" = .ok (some (toString (-9223372036854775808 : Int))) ∧
      (Target.variable "r").Reads (-9223372036854775808) shell') ∧
    ∃ shell', (evaluators 2).expr "" (.assign none (.element "a" (.number 7) "7") value) shell =
        (.ok (-9223372036854775808), shell') ∧
      getElement? "a" (.index 7) shell' =
        (.ok (some (toString (-9223372036854775808 : Int))), shell') ∧
      (Target.element "a" (.number 7) "7").Reads (-9223372036854775808) shell' := by
  intro array shell value
  obtain ⟨hvariable, helement, hsucceeds⟩ := assigned_reads_back 2 "" value shell
  have hvalue : (evaluators 2).expr "" value shell = (.ok (-9223372036854775808), shell) := rfl
  have hindexed : shell.store.LeadsToIndexed "a" :=
    ⟨"a", some array, by decide, by rintro _ ⟨⟩; exact .inr rfl⟩
  have hreference : shell.store.Writable "r" := ⟨"x", none, by decide, nofun, fun _ => by decide⟩
  have harray : shell.store.Writable "a" :=
    ⟨"a", some array, by decide, by rintro _ ⟨⟩; exact ⟨rfl, rfl⟩, nofun⟩
  obtain ⟨shell', hassign⟩ := (hsucceeds "r" _ shell hvalue hreference).1
  obtain ⟨shell'', hassign'⟩ := (hsucceeds "a" _ shell hvalue harray).2 "7" 7 (by decide)
    (by decide) (by decide) hindexed
  exact ⟨⟨shell', hassign, hvariable "r" _ shell' hassign⟩, shell'', hassign',
    helement "a" "7" 7 _ shell shell'' (by decide) (by decide) hvalue (.inl hindexed) hassign'⟩

end Evaluators

end ShellExpansion
