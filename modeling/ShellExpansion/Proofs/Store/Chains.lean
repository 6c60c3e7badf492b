import ShellExpansion.Proofs.Store.Resolution

/-! # How chains of references go on

The names along references are counted from the name that a chain begins with (`Store.follow`).  A
chain either has an end, at a name without a link (`Store.Ends`), or comes back to one of its names
(`Store.Returns`), and never both.  Resolution looks at as many names as the bound on references
says.  It finds the end of a chain that has fewer links than that, and the return of one that has no
more names, and otherwise gives up (`Store.resolve_outcomes`). -/

namespace ShellExpansion.Store

variable {s : Store} {name final : String} {count : Nat}

/-- The name that so many references lead to, one after the other. -/
def follow (s : Store) (name : String) : Nat → Option String
  | 0 => some name
  | n + 1 => (s.follow name n).bind s.link?

/-- So many references lead to a name that leads no further: it is unbound, or no reference, or a
reference without a target. -/
structure Ends (s : Store) (name : String) (count : Nat) (final : String) : Prop where
  follow : s.follow name count = some final
  link? : s.link? final = none

/-- The first names of a chain differ from each other. -/
def Distinct (s : Store) (name : String) (count : Nat) : Prop :=
  ∀ j < count, ∀ i < j, s.follow name i ≠ s.follow name j

instance (s : Store) (name : String) (count : Nat) : Decidable (s.Distinct name count) :=
  inferInstanceAs (Decidable (∀ j < count, ∀ i < j, s.follow name i ≠ s.follow name j))

/-- The first names of a chain, so many of them, differ from each other, and the next one is one of
them. -/
structure Returns (s : Store) (name : String) (count : Nat) : Prop where
  distinct : s.Distinct name count
  repeats : ∃ again, s.follow name count = some again ∧ ∃ i < count, s.follow name i = some again

theorem follow_add (s : Store) (name : String) (m n : Nat) :
    s.follow name (m + n) = (s.follow name m).bind fun between => s.follow between n := by
  induction n with
  | zero => exact (Option.bind_fun_some _).symm
  | succ n ih =>
      rw [← Nat.add_assoc, follow, ih, Option.bind_assoc]
      rfl

theorem follow_succ (s : Store) (name : String) (n : Nat) :
    s.follow name (n + 1) = (s.link? name).bind fun target => s.follow target n := by
  rw [Nat.add_comm, follow_add]
  rfl

/-- Behind the end of a chain there is nothing. -/
theorem Ends.follow_eq_none (h : s.Ends name count final) {n : Nat} (hn : count < n) :
    s.follow name n = none := by
  obtain ⟨more, rfl⟩ := Nat.exists_eq_add_of_lt hn
  rw [Nat.add_assoc, follow_add, h.follow, Option.bind_some, follow_succ, h.link?]
  rfl

/-- A chain has one end. -/
theorem Ends.unique (h : s.Ends name count final) {count' : Nat} {final' : String}
    (h' : s.Ends name count' final') : final' = final := by
  obtain hlt | rfl | hlt := Nat.lt_trichotomy count count'
  · cases (h.follow_eq_none hlt).symm.trans h'.follow
  · exact Option.some.inj (h'.follow.symm.trans h.follow)
  · cases (h'.follow_eq_none hlt).symm.trans h.follow

/-- A chain that comes back goes on for ever. -/
theorem Returns.isSome_follow (h : s.Returns name count) (n : Nat) :
    (s.follow name n).isSome = true := by
  obtain ⟨again, hcount, i, hi, hagain⟩ := h.repeats
  induction n using Nat.strong_induction_on with
  | _ n ih =>
      obtain hle | hlt := Nat.le_total n count
      · -- Nothing could stand behind a name that is not there.
        by_contra hnone
        rw [← Nat.add_sub_of_le hle, follow_add, Option.not_isSome_iff_eq_none.mp hnone] at hcount
        cases hcount
      · -- The chain goes on behind the second occurrence as behind the first one.
        obtain ⟨more, rfl⟩ := Nat.exists_eq_add_of_le hlt
        have hback := ih (i + more) (by omega)
        rw [follow_add, hagain, Option.bind_some] at hback
        rw [follow_add, hcount, Option.bind_some]
        exact hback

theorem Returns.not_ends (h : s.Returns name count) {count' : Nat} :
    ¬ s.Ends name count' final := by
  intro hends
  have hsome := h.isSome_follow (count' + 1)
  rw [hends.follow_eq_none (Nat.lt_succ_self _)] at hsome
  cases hsome

theorem Returns.not_distinct (h : s.Returns name count) {n : Nat} (hn : count < n) :
    ¬ s.Distinct name n := by
  intro hdistinct
  obtain ⟨again, hcount, i, hi, hagain⟩ := h.repeats
  exact hdistinct count hn i hi (hagain.trans hcount.symm)

/-- Names differ from each other if the last of them is new. -/
theorem Distinct.succ (h : s.Distinct name count)
    (hnew : ∀ i < count, s.follow name i ≠ s.follow name count) : s.Distinct name (count + 1) := by
  intro j hj i hi
  obtain hlt | rfl := Nat.lt_succ_iff_lt_or_eq.mp hj
  · exact h j hlt i hi
  · exact hnew i hi

/-- The names that were visited are those in front of the next one. -/
theorem mem_cons_visited_iff {start : String} {visited : List String}
    (hname : s.follow start count = some name)
    (hvisited : ∀ other, other ∈ visited ↔ ∃ i < count, s.follow start i = some other)
    (other : String) :
    other ∈ name :: visited ↔ ∃ i < count + 1, s.follow start i = some other := by
  rw [List.mem_cons, hvisited]
  constructor
  · rintro (rfl | ⟨i, hi, hother⟩)
    · exact ⟨count, Nat.lt_succ_self count, hname⟩
    · exact ⟨i, Nat.lt_succ_of_lt hi, hother⟩
  · rintro ⟨i, hi, hother⟩
    obtain hlt | rfl := Nat.lt_succ_iff_lt_or_eq.mp hi
    · exact .inr ⟨i, hlt, hother⟩
    · exact .inl (Option.some.inj (hother.symm.trans hname))

/-! ### Outcomes -/

/-- The ways on from a name that was reached by differing names: within so many names more the chain
ends, or it returns, or neither. -/
theorem resolveFrom_outcome (first : String) {start : String} {visited : List String} {k : Nat}
    (steps : Nat)
    (hname : s.follow start k = some name)
    (hvisited : ∀ other, other ∈ visited ↔ ∃ i < k, s.follow start i = some other)
    (hdistinct : s.Distinct start (k + 1)) :
    (∃ final, ∃ count < k + steps, s.Ends start count final ∧
      s.resolveFrom first steps visited name = .ok (final, s.lookup final)) ∨
    (∃ count ≤ k + steps, s.Returns start count ∧
      s.resolveFrom first steps visited name = .error (.referenceCycle first)) ∨
    ((s.follow start (k + steps)).isSome = true ∧ s.Distinct start (k + steps + 1) ∧
      s.resolveFrom first steps visited name = .error (.limit (.referenceDepth first))) := by
  induction steps generalizing k visited name with
  | zero => exact .inr (.inr ⟨Option.isSome_of_eq_some hname, hdistinct, rfl⟩)
  | succ steps ih =>
      rw [resolveFrom_succ]
      cases hlink : s.link? name with
      | none => exact .inl ⟨name, k, by omega, ⟨hname, hlink⟩, rfl⟩
      | some target =>
          have htarget : s.follow start (k + 1) = some target := by
            rw [follow, hname, Option.bind_some, hlink]
          have hvisited' := mem_cons_visited_iff hname hvisited
          dsimp only
          split_ifs with hmem
          · exact .inr (.inl ⟨k + 1, by omega,
              ⟨hdistinct, target, htarget, (hvisited' target).mp hmem⟩, rfl⟩)
          · have hdistinct' : s.Distinct start (k + 1 + 1) :=
              hdistinct.succ fun i hi heq =>
                hmem ((hvisited' target).mpr ⟨i, hi, heq.trans htarget⟩)
            have hsteps : k + (steps + 1) = k + 1 + steps := by omega
            rw [hsteps]
            exact ih htarget hvisited' hdistinct'

/-- No name stands behind the beginning of a chain. -/
theorem resolveFrom_start (s : Store) (first name : String) (steps : Nat) :
    (∃ final, ∃ count < steps, s.Ends name count final ∧
      s.resolveFrom first steps [] name = .ok (final, s.lookup final)) ∨
    (∃ count ≤ steps, s.Returns name count ∧
      s.resolveFrom first steps [] name = .error (.referenceCycle first)) ∨
    ((s.follow name steps).isSome = true ∧ s.Distinct name (steps + 1) ∧
      s.resolveFrom first steps [] name = .error (.limit (.referenceDepth first))) := by
  have hvisited : ∀ other, other ∈ ([] : List String) ↔
      ∃ i < 0, s.follow name i = some other := by simp
  have hdistinct : s.Distinct name (0 + 1) := fun j hj i hi => by omega
  have houtcome := resolveFrom_outcome first steps (Eq.refl (s.follow name 0)) hvisited hdistinct
  rw [Nat.zero_add] at houtcome
  exact houtcome

/-- A chain with an end is followed to it in more steps than it has links. -/
theorem Ends.resolveFrom (h : s.Ends name count final) (first : String) {steps : Nat}
    (hsteps : count < steps) :
    s.resolveFrom first steps [] name = .ok (final, s.lookup final) := by
  obtain ⟨final', _, -, hends, hresolve⟩ | ⟨_, -, hreturns, -⟩ | ⟨hsome, -, -⟩ :=
    s.resolveFrom_start first name steps
  · rwa [h.unique hends] at hresolve
  · exact absurd h hreturns.not_ends
  · rw [h.follow_eq_none hsteps] at hsome
    cases hsome

/-- The return of a chain is noticed in as many steps as it has names. -/
theorem Returns.resolveFrom (h : s.Returns name count) (first : String) {steps : Nat}
    (hsteps : count ≤ steps) :
    s.resolveFrom first steps [] name = .error (.referenceCycle first) := by
  obtain ⟨_, _, -, hends, -⟩ | ⟨-, -, -, hresolve⟩ | ⟨-, hdistinct, -⟩ :=
    s.resolveFrom_start first name steps
  · exact absurd hends h.not_ends
  · exact hresolve
  · exact absurd hdistinct (h.not_distinct (Nat.lt_succ_of_le hsteps))

theorem resolve_eq_ok_iff {found : Option Binding} : s.resolve name = .ok (final, found) ↔
    found = s.lookup final ∧
      ∃ count : Nat, count < s.limits.referenceDepth ∧ s.Ends name count final := by
  constructor
  · intro h
    obtain ⟨_, count, hcount, hends, hresolve⟩ | ⟨-, -, -, hresolve⟩ | ⟨-, -, hresolve⟩ :=
      s.resolveFrom_start name name s.limits.referenceDepth.toNat
    all_goals cases h.symm.trans hresolve
    exact ⟨rfl, count, by omega, hends⟩
  · rintro ⟨rfl, count, hcount, hends⟩
    exact hends.resolveFrom name (by omega)

theorem resolve_eq_referenceCycle_iff : s.resolve name = .error (.referenceCycle name) ↔
    ∃ count : Nat, count ≤ s.limits.referenceDepth ∧ s.Returns name count := by
  constructor
  · intro h
    obtain ⟨_, -, -, -, hresolve⟩ | ⟨count, hcount, hreturns, -⟩ | ⟨-, -, hresolve⟩ :=
      s.resolveFrom_start name name s.limits.referenceDepth.toNat
    · cases h.symm.trans hresolve
    · -- A name that is repeated stands behind another one, so that the bound is not negative.
      obtain ⟨-, -, i, hi, -⟩ := hreturns.repeats
      exact ⟨count, by omega, hreturns⟩
    · cases h.symm.trans hresolve
  · rintro ⟨count, hcount, hreturns⟩
    exact hreturns.resolveFrom name (by omega)

/-- **Resolution has three outcomes.**  A chain that ends at fewer links than the bound allows names
is followed to its last name, which comes with its innermost binding; one that returns after no more
names than the bound allows is a cycle; and any other chain is too long.  The last name of a chain
leads to itself. -/
theorem resolve_outcomes (s : Store) (name : String) :
    (∀ final found, s.resolve name = .ok (final, found) ↔ found = s.lookup final ∧
      ∃ count : Nat, count < s.limits.referenceDepth ∧ s.Ends name count final) ∧
    (s.resolve name = .error (.referenceCycle name) ↔
      ∃ count : Nat, count ≤ s.limits.referenceDepth ∧ s.Returns name count) ∧
    (s.resolve name = .error (.limit (.referenceDepth name)) ↔
      (¬ ∃ final, ∃ count : Nat, count < s.limits.referenceDepth ∧ s.Ends name count final) ∧
      ¬ ∃ count : Nat, count ≤ s.limits.referenceDepth ∧ s.Returns name count) ∧
    ∀ final found, s.resolve name = .ok (final, found) →
      s.resolve final = .ok (final, found) := by
  refine ⟨fun _ _ => resolve_eq_ok_iff, resolve_eq_referenceCycle_iff, ?_,
    fun _ _ h => resolve_final h⟩
  constructor
  · intro h
    refine ⟨fun ⟨final, hends⟩ => ?_, fun hreturns => ?_⟩
    · cases h.symm.trans (resolve_eq_ok_iff.mpr ⟨rfl, hends⟩)
    · cases h.symm.trans (resolve_eq_referenceCycle_iff.mpr hreturns)
  · rintro ⟨hopen, hstays⟩
    obtain ⟨final, count, hcount, hends, -⟩ | ⟨-, -, -, hresolve⟩ | ⟨-, -, hresolve⟩ :=
      s.resolveFrom_start name name s.limits.referenceDepth.toNat
    · exact absurd ⟨final, count, by omega, hends⟩ hopen
    · exact absurd (resolve_eq_referenceCycle_iff.mp hresolve) hstays
    · exact hresolve

/-- Where two names are looked up, a reference is followed to its variable past an outer binding of
the same name, and a cycle of two names is found.  One reference more in front of them is one too
many. -/
theorem resolve_outcomes_twoNames :
    let reference (target : String) : Binding := ⟨.reference target, .none, 0⟩
    let s : Store := ⟨[⟨"f", [], Table.ofList [("q", reference "v")]⟩],
      ⟨"global", [], Table.ofList [("p", reference "q"), ("q", reference "p"),
        ("v", ⟨.scalar "x", .none, 0⟩), ("c", reference "d"), ("d", reference "c"),
        ("e", reference "c")]⟩, ⟨1000, 2, 128, 10485760⟩⟩
    let v : String × Option Binding := ("v", some ⟨.scalar "x", .none, 0⟩)
    (s.resolve "q" = .ok v ∧ s.Ends "q" 1 "v" ∧ s.resolve "v" = .ok v) ∧
      (s.resolve "c" = .error (.referenceCycle "c") ∧ s.Returns "c" 2) ∧
      s.resolve "p" = .error (.limit (.referenceDepth "p")) ∧
      s.resolve "e" = .error (.limit (.referenceDepth "e")) := by
  intro reference s v
  have hq : s.resolve "q" = .ok v := by decide
  have hends : s.Ends "q" 1 "v" := ⟨by decide, by decide⟩
  have hreturns : s.Returns "c" 2 := ⟨by decide, "c", by decide, 0, by decide, by decide⟩
  exact ⟨⟨hq, hends, (s.resolve_outcomes "q").2.2.2 _ _ hq⟩,
    ⟨(s.resolve_outcomes "c").2.1.mpr ⟨2, by decide, hreturns⟩, hreturns⟩, by decide, by decide⟩

end ShellExpansion.Store
