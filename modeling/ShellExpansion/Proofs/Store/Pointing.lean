import ShellExpansion.Proofs.Store.Atomic

/-! # References that are refused

Pointing a name somewhere declares it a reference first and looks at the target then.  A declaration
that is refused leaves the store as it was (`eq_of_declare_eq_error`), and one that is not makes one
write (`declare_reference`), which a target that is refused afterwards does not take back: a name
that was unbound stays a reference without a target, and a text stays a reference to the name that
it held (`setReference_refused`).  A reference that was there keeps its target, since the
declaration writes what stands there already (`put_of_at?`). -/

namespace ShellExpansion

/-! ### Writing what is there -/

namespace Table

variable {α : Type}

theorem insertEntry_of_lookup {key : String} {a : α} {entries : List (String × α)}
    (h : entries.lookup key = some a) : insertEntry key a entries = entries := by
  induction entries with
  | nil => cases h
  | cons entry rest ih =>
      rw [List.lookup_cons] at h
      unfold insertEntry
      split_ifs with heq
      · rw [heq, beq_self_eq_true] at h
        cases h
        rw [← heq]
      · rw [beq_false_of_ne (Ne.symm heq)] at h
        rw [ih h]

theorem insertEntry_insertEntry (key : String) (a a' : α) (entries : List (String × α)) :
    insertEntry key a' (insertEntry key a entries) = insertEntry key a' entries := by
  induction entries with
  | nil => simp [insertEntry]
  | cons entry rest ih =>
      by_cases heq : entry.1 = key
      · simp [insertEntry, heq]
      · simp [insertEntry, heq, ih]

theorem insert_of_get? {t : Table α} {key : String} {a : α} (h : t.get? key = some a) :
    t.insert key a = t := by
  obtain ⟨entries, hnodup⟩ := t
  simp only [insert, insertEntry_of_lookup h]

theorem insert_insert (t : Table α) (key : String) (a a' : α) :
    (t.insert key a).insert key a' = t.insert key a' := by
  simp only [insert, insertEntry_insertEntry]

end Table

namespace Store

variable {s s' : Store} {name target : String} {scope : Scope} {place : Place} {b : Binding}

/-- **Writing the binding that stands at a place changes nothing.** -/
theorem put_of_at? (hat : s.at? place = some b) : s.put place b = s := by
  rw [at?, find?_eq_slot?] at hat
  refine eq_of_frame? (fun level => ?_) (limits_bind ..)
  rw [put, frame?_bind]
  split_ifs with hlevel
  · obtain ⟨frame, hframe, hget⟩ := Option.bind_eq_some_iff.mp hat
    rw [hlevel, hframe, Option.map_some, Frame.bind, Table.insert_of_get? hget]
  · rfl

/-- Of two writes to one place the second one counts. -/
theorem put_put (s : Store) (place : Place) (b b' : Binding) :
    (s.put place b).put place b' = s.put place b' := by
  refine eq_of_frame? (fun level => ?_) (by simp only [put, limits_bind])
  simp only [put, frame?_bind, level_bind_self]
  split_ifs with hlevel
  · rw [Option.map_map]
    refine congrArg (Option.map · _) (funext fun frame => ?_)
    simp only [Function.comp_apply, Frame.bind, Table.insert_insert]
  · rfl

/-! ### Declaring a reference -/

/-- What the value refers to once it is declared a reference: nothing yet, or the name that the text
is.  An array cannot be declared one. -/
def pointee? : Value → Option String
  | .unset => some ""
  | .scalar text => some text
  | .reference target => some target
  | _ => none

theorem converted_reference {value new : Value} (h : converted name value .reference = .ok new) :
    ∃ target, pointee? value = some target ∧ new = .reference target := by
  cases value with
  | unset =>
      cases h
      exact ⟨"", rfl, rfl⟩
  | scalar text =>
      unfold converted at h
      dsimp only at h
      split_ifs at h
      cases h
      exact ⟨text, rfl, rfl⟩
  | reference target =>
      cases h
      exact ⟨target, rfl, rfl⟩
  | indexed elements => cases h
  | associative elements => cases h

theorem redeclare_reference (hat : s.at? place = some b)
    (h : s.redeclare place ⟨some .reference, [], [], scope, false⟩ = .ok s') :
    ∃ target, pointee? b.value = some target ∧ s' = s.put place (b.withValue (.reference target)) ∧
      (b.value.isReference = true ∨ b.attributes.readonly = false) := by
  unfold redeclare at h
  rw [get_of_at? hat] at h
  simp only [List.contains_nil, Bool.false_and, Bool.false_eq_true, if_false] at h
  split_ifs at h with hkind hreadonly
  · obtain ⟨value, attributes, generation⟩ := b
    cases value with
    | reference target =>
        cases h
        exact ⟨target, rfl, rfl, .inl rfl⟩
    | _ => cases hkind
  · cases hvalue : converted place.name b.value .reference with
    | error fault =>
        rw [hvalue] at h
        cases h
    | ok value =>
        rw [hvalue] at h
        cases h
        obtain ⟨target, hpointee, rfl⟩ := converted_reference hvalue
        exact ⟨target, hpointee, rfl, .inr (by simpa using hreadonly)⟩

/-- **Declaring a reference makes one write**: what is there becomes a reference. -/
theorem declare_reference
    (h : s.declare name ⟨some .reference, [], [], scope, false⟩ = (.ok place, s')) :
    place = ⟨scope, name⟩ ∧ ∃ target, pointee? (s.get place).value = some target ∧
      s' = s.put place ((s.get place).withValue (.reference target)) ∧
      ((s.get place).value.isReference = true ∨ (s.get place).attributes.readonly = false) := by
  obtain rfl : place = ⟨scope, name⟩ :=
    place_of_declare (fun b _ => declaredPlace_of_reference rfl s name b) (by rw [h])
  refine ⟨rfl, ?_⟩
  unfold declare at h
  split at h
  · cases h
  · cases hfind : s.find? scope name with
    | none =>
        have hat : s.at? ⟨scope, name⟩ = none := hfind
        have hget : s.get ⟨scope, name⟩ = .unset := by rw [Store.get, hat, Option.getD_none]
        rw [hfind] at h
        dsimp only at h
        split at h
        · next hredeclare =>
            cases h
            obtain ⟨target, hpointee, rfl, hwritable⟩ :=
              redeclare_reference (at?_put s ⟨scope, name⟩ .unset) hredeclare
            rw [hget]
            exact ⟨target, hpointee, put_put .., hwritable⟩
        · cases h
    | some b =>
        rw [hfind] at h
        dsimp only at h
        rw [declaredPlace_of_reference rfl] at h
        dsimp only at h
        split at h
        · next hredeclare =>
            cases h
            have hat : s.at? ⟨scope, name⟩ = some b := hfind
            rw [get_of_at? hat]
            exact redeclare_reference hat hredeclare
        · cases h

/-- A reference that is declared one keeps its target. -/
theorem put_pointee (hvalue : (s.get place).value.isReference = true)
    (hpointee : pointee? (s.get place).value = some target) :
    s.put place ((s.get place).withValue (.reference target)) = s := by
  cases hat : s.at? place with
  | none =>
      rw [Store.get, hat] at hvalue
      cases hvalue
  | some b =>
      rw [get_of_at? hat] at hvalue hpointee ⊢
      obtain ⟨value, attributes, generation⟩ := b
      cases value with
      | reference old =>
          cases hpointee
          exact put_of_at? hat
      | _ => cases hvalue

/-! ### Pointing a name somewhere -/

/-- **What pointing a name leaves behind when it is refused**: nothing, if the target is a name of a
variable other than this one, or if the name was a reference already.  Otherwise the store is as it
was, or what stood at the name, in the scope, has become a reference. -/
theorem setReference_refused {e : Error}
    (h : s.setReference name target scope = (.error (.error e), s')) :
    (isIdentifier target = true → target ≠ name → s' = s) ∧
      ((s.get ⟨scope, name⟩).value.isReference = true → s' = s) ∧
      (s' = s ∨ (s.get ⟨scope, name⟩).attributes.readonly = false ∧
        ∃ old, pointee? (s.get ⟨scope, name⟩).value = some old ∧
          s' = s.put ⟨scope, name⟩ ((s.get ⟨scope, name⟩).withValue (.reference old))) := by
  unfold setReference at h
  cases hdeclare : s.declare name ⟨some .reference, [], [], scope, false⟩ with
  | mk result declared =>
      rw [hdeclare] at h
      cases result with
      | error fault =>
          cases h
          have hsame := eq_of_declare_eq_error rfl hdeclare
          exact ⟨fun _ _ => hsame, fun _ => hsame, .inl hsame⟩
      | ok place =>
          obtain ⟨rfl, old, hpointee, hput, hwritable⟩ := declare_reference hdeclare
          have hkept (hvalue : (s.get ⟨scope, name⟩).value.isReference = true) : declared = s :=
            hput.trans (put_pointee hvalue hpointee)
          have hget : declared.get ⟨scope, name⟩ =
              (s.get ⟨scope, name⟩).withValue (.reference old) := by
            rw [hput]
            exact get_of_at? (at?_put ..)
          dsimp only at h
          rw [hget] at h
          obtain rfl : declared = s' := by
            split_ifs at h <;> cases h <;> rfl
          refine ⟨fun hname hne => ?_, hkept, ?_⟩
          · -- Only the attribute is left to refuse it, and what was declared just now has it not.
            have hreadonly : (s.get ⟨scope, name⟩).attributes.readonly = true := by
              by_contra hreadonly
              have hreadonly : ((s.get ⟨scope, name⟩).withValue
                  (.reference old)).attributes.readonly ≠ true := hreadonly
              rw [if_neg hreadonly, if_neg (by simp [hname]), if_neg hne] at h
              cases h
            refine hkept (hwritable.resolve_right ?_)
            rw [hreadonly]
            exact Bool.noConfusion
          · rcases hwritable with hvalue | hwritable
            · exact .inl (hkept hvalue)
            · exact .inr ⟨hwritable, old, hpointee, hput⟩

/-- A text that names no variable is not replaced by a reference, and neither is a reference that is
read-only. -/
theorem setReference_refused_text :
    let s : Store := ⟨[], ⟨"global", [], Table.ofList [("v", ⟨.scalar "1", .none, 0⟩),
      ("r", ⟨.reference "x", ⟨false, true, false⟩, 0⟩)]⟩, .standard⟩
    (∃ s', s.setReference "v" "x" .current =
      (.error (.error (.invalidIdentifier "1" (some "declare"))), s') ∧ s' = s) ∧
    ∃ s', s.setReference "r" "not a name" .current =
      (.error (.error (.readonlyVariable "r")), s') ∧ s' = s := by
  intro s
  have htext : s.setReference "v" "x" .current =
      (.error (.error (.invalidIdentifier "1" (some "declare"))), s) := by decide
  have hreadonly : s.setReference "r" "not a name" .current =
      (.error (.error (.readonlyVariable "r")), s) := by decide
  exact ⟨⟨s, htext, (setReference_refused htext).1 (by decide) (by decide)⟩,
    ⟨s, hreadonly, (setReference_refused hreadonly).2.1 rfl⟩⟩

/-- **A target that is refused leaves a reference**: an unbound name refers to nothing, and a text
has become a reference to the name that it was. -/
theorem setReference_leaves_reference :
    let s : Store := ⟨[], ⟨"global", [], Table.ofList [("x", ⟨.scalar "y", .none, 0⟩)]⟩, .standard⟩
    ((s.setReference "r" "not a name" .current).1 =
        .error (.error (.invalidIdentifier "not a name" (some "declare"))) ∧
      s.lookup "r" = none ∧
      (s.setReference "r" "not a name" .current).2.lookup "r" = some ⟨.reference "", .none, 0⟩) ∧
    (s.setReference "x" "x" .current).1 = .error (.error (.referenceCycle "x")) ∧
      (s.setReference "x" "x" .current).2.lookup "x" = some ⟨.reference "y", .none, 0⟩ := by
  decide

end Store

end ShellExpansion
