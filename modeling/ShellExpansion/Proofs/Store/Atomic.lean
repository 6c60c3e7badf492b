import ShellExpansion.Proofs.Store.Bounds
import ShellExpansion.Proofs.Store.Changes

/-! # Operations that change everything or nothing

Assignment and removal are defined to give a store only when they succeed.  Here they are written
out with every write made as soon as it is come to: an assignment binds an unbound name before the
new value is worked out (`assignInSteps`), and a removal goes along references and removes each name
when the names behind it are gone (`eraseInSteps`).  Both give what the operations give, and the
store as it was if they are refused (`assignInSteps_eq`, `eraseInSteps_eq`): a binding that was made
takes any text, and a removal reaches the end of its chain before it removes the first name.  A
declaration, which may leave a part of its changes behind, does so with a copy of an outer variable
only (`eq_of_declare_eq_error`). -/

namespace ShellExpansion

theorem Frame.unbind_comm (frame : Frame) (name other : String) :
    (frame.unbind name).unbind other = (frame.unbind other).unbind name := by
  unfold Frame.unbind Table.erase
  simp only [List.filter_filter, Bool.and_comm]

namespace Store

variable {s s' : Store} {name final text : String} {scope : Scope} {place : Place}

/-- What is left by an operation that makes all of its changes or none. -/
def allAtOnce {α : Type} (s : Store) : Except Error (α × Store) → Except Error α × Store
  | .ok (a, s') => (.ok a, s')
  | .error e => (.error e, s)

theorem eq_of_allAtOnce_eq_error {α : Type} {result : Except Error (α × Store)} {e : Error}
    (h : s.allAtOnce result = (.error e, s')) : s' = s := by
  cases result with
  | ok result => cases h
  | error e => exact (congrArg Prod.snd h).symm

/-! ### Assigning -/

/-- An assignment that binds an unbound name before it works out the value. -/
def assignInSteps (s : Store) (name text : String) (scope : Scope) (append : Bool) :
    Except Error Place × Store :=
  match s.prepare name scope with
  | .error e => (.error e, s)
  | .ok (place, prepared) =>
    match assigned (prepared.get place).value text append with
    | .error e => (.error e, prepared)
    | .ok value => (.ok place, prepared.putValue place value)

/-- Only a reference refuses a text, so that a binding that was just made does not. -/
theorem eq_of_assigned_eq_error {append : Bool} {e : Error}
    (hprepare : s.prepare name scope = .ok (place, s'))
    (h : assigned (s'.get place).value text append = .error e) : s' = s := by
  obtain ⟨-, ⟨b, -, -, rfl⟩ | ⟨-, -, rfl⟩⟩ := prepare_spec hprepare
  · rfl
  · rw [get_of_at? (at?_put s place .unset)] at h
    cases h

theorem assignInSteps_eq (s : Store) (name text : String) (scope : Scope) (append : Bool) :
    s.assignInSteps name text scope append = s.allAtOnce (s.assign name text scope append) := by
  unfold assignInSteps assign
  cases hprepare : s.prepare name scope with
  | error e => rfl
  | ok result =>
      obtain ⟨place, prepared⟩ := result
      dsimp only
      cases hvalue : assigned (prepared.get place).value text append with
      | error e =>
          rw [eq_of_assigned_eq_error hprepare hvalue]
          rfl
      | ok value => rfl

/-! ### Removing -/

/-- A removal that goes along references, at most `steps` of them, and removes each name when the
names behind it are gone. -/
def eraseInSteps (s : Store) : Nat → String → Bool → Except Error Bool × Store
  | 0, name, _ => (.error (.limit (.referenceDepth name)), s)
  | steps + 1, name, keepTarget =>
    match s.lookup name with
    | none => (.ok false, s)
    | some b =>
      if b.attributes.readonly then (.error (.readonlyVariable name), s)
      else if b.value.isReference && !keepTarget then
        match s.resolve name with
        | .error e => (.error e, s)
        | .ok _ =>
          match s.link? name with
          | none => (.ok true, s.unbind name)
          | some target =>
            match s.eraseInSteps steps target false with
            | (.error e, s') => (.error e, s')
            | (.ok _, s') => (.ok true, s'.unbind name)
      else (.ok true, s.unbind name)

/-- Removes the names of a chain, unless one of them is read-only. -/
def eraseLinks (s : Store) (links : List (String × Binding)) : Except Error (Bool × Store) :=
  match links.find? (·.2.attributes.readonly) with
  | some link => .error (.readonlyVariable link.1)
  | none => .ok (!links.isEmpty, links.foldl (fun s link => s.unbind link.1) s)

/-- Stores with the same frames and bounds are the same. -/
theorem eq_of_frame? (hframe : ∀ level, s'.frame? level = s.frame? level)
    (hlimits : s'.limits = s.limits) : s' = s := by
  obtain ⟨inner, outermost, limits⟩ := s
  obtain ⟨inner', outermost', limits'⟩ := s'
  obtain rfl : limits' = limits := hlimits
  have hframes : outermost' :: inner'.reverse = outermost :: inner.reverse :=
    List.ext_getElem? hframe
  obtain ⟨rfl, hinner⟩ := List.cons.inj hframes
  rw [List.reverse_inj.mp hinner]

theorem level_unbind_of_ne {other : String} (hne : other ≠ name) :
    (s.unbind name).level .nearest other = s.level .nearest other :=
  level_congr (depth_unbind ..)
    (fun level _ => by rw [slot?_unbind, if_neg fun h => hne h.2]) .nearest

/-- The order of removals does not matter. -/
theorem unbind_comm {other : String} (hne : other ≠ name) :
    (s.unbind name).unbind other = (s.unbind other).unbind name := by
  refine eq_of_frame? (fun level => ?_) (by simp only [limits_unbind])
  simp only [frame?_unbind, level_unbind_of_ne hne, level_unbind_of_ne hne.symm]
  split_ifs
  · rw [Option.map_map, Option.map_map]
    exact congrArg (Option.map · _) (funext fun frame => Frame.unbind_comm frame name other)
  all_goals rfl

theorem foldl_unbind_comm {links : List (String × Binding)} (hname : name ∉ links.map Prod.fst) :
    links.foldl (fun s link => s.unbind link.1) (s.unbind name) =
      (links.foldl (fun s link => s.unbind link.1) s).unbind name := by
  induction links generalizing s with
  | nil => rfl
  | cons link rest ih =>
      have hne : link.1 ≠ name := fun heq => hname (heq ▸ List.mem_cons_self)
      have hrest : name ∉ rest.map Prod.fst := fun hmem => hname (List.mem_cons_of_mem _ hmem)
      rw [List.foldl_cons, List.foldl_cons, unbind_comm hne, ih hrest]

/-- The first name of a chain is removed when the names behind it are gone. -/
theorem eraseLinks_cons {b : Binding} {links : List (String × Binding)}
    (hreadonly : b.attributes.readonly = false) (hname : name ∉ links.map Prod.fst) :
    s.eraseLinks ((name, b) :: links) =
      (s.eraseLinks links).map fun result => (true, result.2.unbind name) := by
  unfold eraseLinks
  rw [List.find?_cons, hreadonly]
  dsimp only
  cases links.find? (·.2.attributes.readonly) with
  | some link => rfl
  | none => exact congrArg (fun s => Except.ok (true, s)) (foldl_unbind_comm hname)

/-- The end of a chain does not depend on what is remembered of its beginning. -/
theorem resolveFrom_of_subset {first other : String} {steps : Nat} {visited less : List String}
    {result : String × Option Binding} (hless : less ⊆ visited)
    (h : s.resolveFrom first steps visited name = .ok result) :
    s.resolveFrom other steps less name = .ok result := by
  induction steps generalizing visited less name with
  | zero => cases h
  | succ steps ih =>
      rw [resolveFrom_succ] at h ⊢
      cases hlink : s.link? name with
      | none =>
          rw [hlink] at h
          exact h
      | some target =>
          rw [hlink] at h
          dsimp only at h ⊢
          have hsubset : name :: less ⊆ name :: visited := List.cons_subset_cons name hless
          split_ifs at h with hvisited
          rw [if_neg fun hmem => hvisited (hsubset hmem)]
          exact ih hsubset h

/-- A part of a chain that was followed is followed from its own beginning, too. -/
theorem resolve_of_resolveFrom {first : String} {steps : Nat} {visited : List String}
    {result : String × Option Binding} (hsteps : steps ≤ s.limits.referenceDepth.toNat)
    (h : s.resolveFrom first steps visited name = .ok result) : s.resolve name = .ok result :=
  resolveFrom_mono hsteps (resolveFrom_of_subset (List.nil_subset visited) h)

/-- **Along a chain that has an end, all names are removed or none.** -/
theorem eraseInSteps_of_resolveFrom {first : String} {steps : Nat} {visited : List String}
    {result : String × Option Binding} (hsteps : steps ≤ s.limits.referenceDepth.toNat)
    (h : s.resolveFrom first steps visited name = .ok result) (hname : name ∉ visited) :
    s.eraseInSteps (steps + 1) name false = s.allAtOnce (s.eraseLinks (s.chain steps name)) := by
  induction steps generalizing visited name with
  | zero => cases h
  | succ steps ih =>
      have hresolve := resolve_of_resolveFrom hsteps h
      have hnodup := (nodup_chain h hname).1
      rw [resolveFrom_succ] at h
      rw [eraseInSteps]
      rw [chain_succ] at hnodup ⊢
      cases hlookup : s.lookup name with
      | none => rfl
      | some b =>
          dsimp only
          rw [hlookup] at hnodup
          have hhead := (List.nodup_cons.mp hnodup).1
          cases hreadonly : b.attributes.readonly with
          | true =>
              rw [if_pos rfl, eraseLinks, List.find?_cons, hreadonly]
              rfl
          | false =>
              rw [if_neg Bool.false_ne_true, eraseLinks_cons hreadonly hhead]
              cases hlink : s.link? name with
              | none =>
                  rw [hresolve]
                  dsimp only
                  split_ifs <;> rfl
              | some target =>
                  rw [hlink] at h
                  dsimp only at h
                  split_ifs at h with hvisited
                  have hreference : b.value.isReference = true := by
                    by_contra hvalue
                    rw [link?_eq_none hlookup (by simpa using hvalue)] at hlink
                    cases hlink
                  rw [hreference, hresolve]
                  dsimp only
                  rw [if_pos (by rfl), ih (by omega) h hvisited]
                  cases s.eraseLinks (s.chain steps target) <;> rfl

/-- A removal along references is one of all names of the chain. -/
theorem erase_eq_eraseLinks {b : Binding} {result : String × Option Binding}
    (hlookup : s.lookup name = some b) (hreadonly : b.attributes.readonly = false)
    (hreference : b.value.isReference = true) (hresolve : s.resolve name = .ok result) :
    s.erase name false = s.eraseLinks (s.chain s.limits.referenceDepth.toNat name) := by
  have hbound : (s.chain s.limits.referenceDepth.toNat name).isEmpty = false := by
    obtain ⟨-, -, hpos⟩ := resolveFrom_spec hresolve
    rw [← Nat.succ_pred_eq_of_pos hpos, Nat.succ_eq_add_one, chain_succ, hlookup]
    rfl
  unfold erase eraseLinks
  rw [hlookup]
  dsimp only
  rw [if_neg (by simp [hreadonly]), if_pos (by simp [hreference]), hresolve, hbound]
  dsimp only
  cases (s.chain s.limits.referenceDepth.toNat name).find? (·.2.attributes.readonly) <;> rfl

theorem eraseInSteps_eq (s : Store) (name : String) (keepTarget : Bool) :
    s.eraseInSteps (s.limits.referenceDepth.toNat + 1) name keepTarget =
      s.allAtOnce (s.erase name keepTarget) := by
  cases hlookup : s.lookup name with
  | none =>
      rw [eraseInSteps, erase, hlookup]
      rfl
  | some b =>
      cases hreadonly : b.attributes.readonly with
      | true =>
          rw [eraseInSteps, erase, hlookup]
          dsimp only
          rw [if_pos hreadonly, if_pos hreadonly]
          rfl
      | false =>
          cases hfollow : b.value.isReference && !keepTarget with
          | false =>
              rw [eraseInSteps, erase, hlookup]
              simp only [hreadonly, hfollow, Bool.false_eq_true, if_false]
              rfl
          | true =>
              obtain ⟨hreference, hkeep⟩ := Bool.and_eq_true_iff.mp hfollow
              obtain rfl : keepTarget = false := by simpa using hkeep
              cases hresolve : s.resolve name with
              | ok result =>
                  rw [erase_eq_eraseLinks hlookup hreadonly hreference hresolve]
                  exact eraseInSteps_of_resolveFrom (Nat.le_refl _) hresolve List.not_mem_nil
              | error e =>
                  rw [eraseInSteps, erase, hlookup]
                  simp only [hreadonly, hfollow, hresolve, Bool.false_eq_true, if_false, if_true]
                  rfl

/-! ### Declaring -/

/-- Nothing stands against a declaration of a new variable, if it asks for a kind of value. -/
theorem redeclare_unset_ne_error {request : Declaration} {e : Error}
    (hget : s.get place = .unset) : s.redeclare place request ≠ .error (.error e) := by
  unfold redeclare
  rw [hget]
  cases hkind : request.kind with
  | none => simp [Binding.unset, Attributes.none]
  | some kind => cases kind <;> simp [Binding.unset, Attributes.none, Value.kind?, converted]

/-- **A declaration that is refused changes nothing**, unless the new variable was to be a copy. -/
theorem eq_of_declare_eq_error {request : Declaration} {e : Error}
    (hinherit : request.inherit = false)
    (h : s.declare name request = (.error (.error e), s')) : s' = s := by
  unfold declare at h
  split at h
  · cases h
    rfl
  · cases hfind : s.find? request.scope name with
    | some b =>
        rw [hfind] at h
        dsimp only at h
        split at h
        · split at h
          · cases h
          · cases h
            rfl
        · cases h
          rfl
    | none =>
        have hget : (s.put ⟨request.scope, name⟩ .unset).get ⟨request.scope, name⟩ = .unset :=
          get_of_at? (at?_put ..)
        rw [hfind, hinherit] at h
        dsimp only at h
        split at h
        · cases h
        · next fault hredeclare =>
            cases h
            exact absurd hredeclare (redeclare_unset_ne_error hget)

/-! ### The three of them -/

/-- **An operation of the store that is refused changes nothing**: an assignment, a removal, and a
declaration that copies no outer variable leave the store as it was, also when they are carried out
write by write. -/
theorem eq_of_refused (s : Store) (name : String) :
    (∀ text scope append,
      s.assignInSteps name text scope append = s.allAtOnce (s.assign name text scope append) ∧
      ∀ e s', s.assignInSteps name text scope append = (.error e, s') → s' = s) ∧
    (∀ keepTarget,
      s.eraseInSteps (s.limits.referenceDepth.toNat + 1) name keepTarget =
        s.allAtOnce (s.erase name keepTarget) ∧
      ∀ e s', s.eraseInSteps (s.limits.referenceDepth.toNat + 1) name keepTarget =
        (.error e, s') → s' = s) ∧
    ∀ request, request.inherit = false → ∀ e s',
      s.declare name request = (.error (.error e), s') → s' = s := by
  refine ⟨fun text scope append => ⟨assignInSteps_eq .., fun e s' h => ?_⟩,
    fun keepTarget => ⟨eraseInSteps_eq .., fun e s' h => ?_⟩,
    fun request hinherit e s' h => eq_of_declare_eq_error hinherit h⟩
  · rw [assignInSteps_eq] at h
    exact eq_of_allAtOnce_eq_error h
  · rw [eraseInSteps_eq] at h
    exact eq_of_allAtOnce_eq_error h

/-- Two references lead to a read-only variable, and an array stands beside them: a text is no
target for the reference without one, the removal fails at the far end of the chain, and the array
does not become an associative one. -/
theorem eq_of_refused_chain :
    let s : Store := ⟨[⟨"f", [], Table.empty.insert "p" ⟨.reference "q", .none, 0⟩⟩],
      ⟨"global", [], Table.ofList [("q", ⟨.reference "v", .none, 0⟩),
        ("v", ⟨.scalar "x", ⟨false, true, false⟩, 0⟩), ("e", ⟨.reference "", .none, 0⟩),
        ("a", ⟨.indexed (IndexedArray.singleton "x"), .none, 0⟩)]⟩, .standard⟩
    (∃ s', s.assignInSteps "e" "1" .nearest false =
      (.error (.invalidIdentifier "1" (some "declare")), s') ∧ s' = s) ∧
    (∃ s', s.eraseInSteps 101 "p" false = (.error (.readonlyVariable "v"), s') ∧ s' = s) ∧
    ∃ s', s.declare "a" ⟨some .associative, [], [], .nearest, false⟩ =
      (.error (.error (.attributes "a" .indexedToAssociative)), s') ∧ s' = s := by
  intro s
  have hassign : s.assignInSteps "e" "1" .nearest false =
      (.error (.invalidIdentifier "1" (some "declare")), s) := by decide
  have herase : s.eraseInSteps 101 "p" false = (.error (.readonlyVariable "v"), s) := by decide
  have hdeclare : s.declare "a" ⟨some .associative, [], [], .nearest, false⟩ =
      (.error (.error (.attributes "a" .indexedToAssociative)), s) := by decide
  exact ⟨⟨s, hassign, ((eq_of_refused s "e").1 "1" .nearest false).2 _ _ hassign⟩,
    ⟨s, herase, ((eq_of_refused s "p").2.1 false).2 _ _ herase⟩,
    ⟨s, hdeclare, (eq_of_refused s "a").2.2 _ rfl _ _ hdeclare⟩⟩

end Store

end ShellExpansion
