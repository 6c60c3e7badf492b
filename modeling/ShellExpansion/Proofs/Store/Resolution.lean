import ShellExpansion.Proofs.Except
import ShellExpansion.Proofs.Store.Frames
import ShellExpansion.Store.Reference

/-! # Following references

A chain of references is made of links (`Store.link?`), from a name to the name that its innermost
binding refers to.  Where a chain ends, or with which error it does not, depends on the links alone
(`resolve_fst_congr`), and the binding at its end is the innermost one of the last name
(`resolve_spec`).  The last name leads to itself (`resolve_final`). -/

namespace ShellExpansion.Store

variable {s s' : Store} {name final : String} {found : Option Binding}

/-- The name that a bound name refers to, if it is a reference with a target. -/
def link? (s : Store) (name : String) : Option String :=
  match (s.lookup name).map Binding.value with
  | some (.reference target) => if target = "" then none else some target
  | _ => none

theorem exists_of_link? {target : String} (h : s.link? name = some target) :
    ∃ b, s.lookup name = some b ∧ b.value = .reference target ∧ target ≠ "" := by
  unfold link? at h
  cases hlookup : s.lookup name with
  | none =>
      rw [hlookup] at h
      cases h
  | some b =>
      rw [hlookup, Option.map_some] at h
      split at h
      · next target' heq =>
        split_ifs at h with hne
        cases h
        exact ⟨b, rfl, Option.some.inj heq, hne⟩
      · cases h

theorem link?_of_lookup {b : Binding} {target : String} (hlookup : s.lookup name = some b)
    (hvalue : b.value = .reference target) (hne : target ≠ "") : s.link? name = some target := by
  unfold link?
  rw [hlookup, Option.map_some, hvalue]
  exact if_neg hne

theorem resolveFrom_succ (s : Store) (first : String) (steps : Nat) (visited : List String)
    (name : String) :
    s.resolveFrom first (steps + 1) visited name =
      match s.link? name with
      | none => .ok (name, s.lookup name)
      | some target =>
        if target ∈ name :: visited then .error (.referenceCycle first)
        else s.resolveFrom first steps (name :: visited) target := by
  rw [resolveFrom]
  unfold link?
  cases hlookup : s.lookup name with
  | none => rfl
  | some b =>
      obtain ⟨value, attributes, generation⟩ := b
      cases value with
      | reference target =>
          by_cases htarget : target = ""
          · simp only [Option.map_some, htarget, if_true]
          · simp only [Option.map_some, htarget, if_false]
      | _ => rfl

theorem resolveFrom_spec {first : String} {steps : Nat} {visited : List String}
    (h : s.resolveFrom first steps visited name = .ok (final, found)) :
    s.link? final = none ∧ found = s.lookup final ∧ 0 < steps := by
  induction steps generalizing visited name with
  | zero => cases h
  | succ steps ih =>
      rw [resolveFrom_succ] at h
      cases hlink : s.link? name with
      | none =>
          rw [hlink] at h
          cases h
          exact ⟨hlink, rfl, Nat.succ_pos steps⟩
      | some target =>
          rw [hlink] at h
          dsimp only at h
          split_ifs at h
          obtain ⟨hfinal, hfound, -⟩ := ih h
          exact ⟨hfinal, hfound, Nat.succ_pos steps⟩

/-- The chain ends at a name without a link, and with its innermost binding. -/
theorem resolve_spec (h : s.resolve name = .ok (final, found)) :
    s.link? final = none ∧ found = s.lookup final :=
  ⟨(resolveFrom_spec h).1, (resolveFrom_spec h).2.1⟩

/-- **The last name of a chain leads to itself.** -/
theorem resolve_final (h : s.resolve name = .ok (final, found)) :
    s.resolve final = .ok (final, found) := by
  obtain ⟨hlink, hfound, hpos⟩ := resolveFrom_spec h
  unfold resolve
  cases hsteps : s.limits.referenceDepth.toNat with
  | zero => omega
  | succ steps => rw [resolveFrom_succ, hlink, hfound]

theorem resolveFrom_fst_congr (hlink : ∀ name, s'.link? name = s.link? name) (first : String)
    (steps : Nat) (visited : List String) (name : String) :
    (s'.resolveFrom first steps visited name).map Prod.fst =
      (s.resolveFrom first steps visited name).map Prod.fst := by
  induction steps generalizing visited name with
  | zero => rfl
  | succ steps ih =>
      rw [resolveFrom_succ, resolveFrom_succ, hlink]
      cases s.link? name with
      | none => rfl
      | some target =>
          dsimp only
          split_ifs
          · rfl
          · exact ih (name :: visited) target

/-- **The links alone decide** where a chain ends, or why it does not. -/
theorem resolve_fst_congr (hlimits : s'.limits = s.limits)
    (hlink : ∀ name, s'.link? name = s.link? name) (name : String) :
    (s'.resolve name).map Prod.fst = (s.resolve name).map Prod.fst := by
  unfold resolve
  rw [hlimits]
  exact resolveFrom_fst_congr hlink _ _ _ _

theorem binding?_of_resolve (h : s.resolve name = .ok (final, found)) :
    s.binding? name = .ok found := by
  rw [binding?, h]
  rfl

theorem get?_of_resolve (h : s.resolve name = .ok (final, found)) :
    s.get? name = .ok (found.bind (·.value.scalar?)) := by
  rw [get?, binding?_of_resolve h]
  rfl

theorem binding?_eq (s : Store) (name : String) :
    s.binding? name = ((s.resolve name).map Prod.fst).map s.lookup := by
  unfold binding?
  cases h : s.resolve name with
  | error e => rfl
  | ok result =>
      obtain ⟨final, found⟩ := result
      exact congrArg Except.ok (resolve_spec h).2

theorem get?_eq (s : Store) (name : String) :
    s.get? name = ((s.resolve name).map Prod.fst).map fun final =>
      (s.lookup final).bind (·.value.scalar?) := by
  unfold get?
  rw [binding?_eq]
  cases s.resolve name <;> rfl

/-! ### Places -/

theorem level_bind_nearest (s : Store) (name : String) (b : Binding) (scope : Scope)
    (other : String) : (s.bind .nearest name b).level scope other = s.level scope other := by
  refine level_congr (depth_bind ..) (fun level hne => ?_) scope
  rw [slot?_bind]
  split_ifs with h
  · obtain ⟨rfl, rfl⟩ := h
    exact ((level_nearest_eq_iff.mp rfl).2.1 hne).symm
  · rfl

theorem level_bind_self (s : Store) (scope : Scope) (name : String) (b : Binding) :
    (s.bind scope name b).level scope name = s.level scope name := by
  cases scope with
  | nearest => exact level_bind_nearest s name b .nearest name
  | current => exact depth_bind ..
  | outermost => rfl

/-- What is put at a place stands there. -/
theorem at?_put (s : Store) (place : Place) (b : Binding) : (s.put place b).at? place = some b := by
  unfold at? put
  rw [find?_eq_slot?, level_bind_self, slot?_bind, if_pos ⟨rfl, rfl⟩]

theorem get_of_at? {place : Place} {b : Binding} (h : s.at? place = some b) : s.get place = b := by
  rw [Store.get, h, Option.getD_some]

/-! ### Writing -/

/-- A write to a name without a scope goes to the nearest binding of the name it leads to. -/
theorem place_nearest (h : s.resolve name = .ok (final, found)) :
    s.place name .nearest = .ok ⟨.nearest, final⟩ := by
  unfold place
  rw [h]
  simp only [Except.map]
  split_ifs <;> rfl

variable {scope : Scope} {place : Place}

/-- A place that is ready holds a binding that may be written: the one that stood there, or a new
one without a value. -/
theorem prepare_spec (h : s.prepare name scope = .ok (place, s')) :
    s.place name scope = .ok place ∧
      ((∃ b, s.at? place = some b ∧ b.attributes.readonly = false ∧ s' = s) ∨
        (s.at? place = none ∧ isIdentifier place.name = true ∧ s' = s.put place .unset)) := by
  unfold prepare at h
  cases hplace : s.place name scope with
  | error e =>
      rw [hplace] at h
      cases h
  | ok place' =>
      rw [hplace] at h
      dsimp only at h
      cases hat : s.at? place' with
      | some b =>
          rw [hat] at h
          dsimp only at h
          split_ifs at h with hreadonly
          cases h
          exact ⟨rfl, .inl ⟨b, hat, Bool.eq_false_iff.mpr hreadonly, rfl⟩⟩
      | none =>
          rw [hat] at h
          dsimp only at h
          split_ifs at h with hname
          cases h
          exact ⟨rfl, .inr ⟨hat, hname, rfl⟩⟩

/-- A place that is bound is ready as it is unless it is read-only. -/
theorem prepare_bound {b : Binding} (hplace : s.place name scope = .ok place)
    (hat : s.at? place = some b) : s.prepare name scope =
      if b.attributes.readonly then .error (.readonlyVariable place.name) else .ok (place, s) := by
  unfold prepare
  rw [hplace]
  dsimp only
  rw [hat]

/-- A binding that may be written is ready where it stands. -/
theorem prepare_of_at? {b : Binding} (hplace : s.place name scope = .ok place)
    (hat : s.at? place = some b) (hreadonly : b.attributes.readonly = false) :
    s.prepare name scope = .ok (place, s) := by
  rw [prepare_bound hplace hat, hreadonly, if_neg Bool.false_ne_true]

theorem exists_at?_of_prepare (h : s.prepare name scope = .ok (place, s')) :
    ∃ b, s'.at? place = some b ∧ b.attributes.readonly = false := by
  obtain ⟨-, ⟨b, hat, hreadonly, rfl⟩ | ⟨-, -, rfl⟩⟩ := prepare_spec h
  · exact ⟨b, hat, hreadonly⟩
  · exact ⟨.unset, at?_put s place .unset, rfl⟩

/-- An assignment makes a place ready and gives its binding another value. -/
theorem assign_spec {text : String} {append : Bool}
    (h : s.assign name text scope append = .ok (place, s')) :
    ∃ prepared b value, s.prepare name scope = .ok (place, prepared) ∧
      prepared.at? place = some b ∧ b.attributes.readonly = false ∧
      assigned b.value text append = .ok value ∧ s' = prepared.put place (b.withValue value) := by
  unfold assign at h
  cases hprepare : s.prepare name scope with
  | error e =>
      rw [hprepare] at h
      cases h
  | ok result =>
      obtain ⟨place', prepared⟩ := result
      rw [hprepare] at h
      dsimp only at h
      obtain ⟨b, hat, hreadonly⟩ := exists_at?_of_prepare hprepare
      rw [get_of_at? hat] at h
      cases hvalue : assigned b.value text append with
      | error e =>
          rw [hvalue] at h
          cases h
      | ok value =>
          rw [hvalue] at h
          cases h
          refine ⟨prepared, b, value, rfl, hat, hreadonly, hvalue, ?_⟩
          rw [putValue, get_of_at? hat]

/-- A value that is no reference stays none, and reads as the text assigned to it. -/
theorem assigned_spec {old value : Value} {text : String}
    (hold : old.isReference = false) (h : assigned old text false = .ok value) :
    value.isReference = false ∧ value.scalar? = some text := by
  have hjoined : (if false then old.scalar?.getD "" else "") ++ text = text := String.empty_append
  unfold assigned at h
  rw [hjoined] at h
  cases old with
  | reference target => cases hold
  | indexed elements =>
      cases h
      exact ⟨rfl, by rw [Value.scalar?, IndexedArray.get?_insert, if_pos rfl]⟩
  | associative elements =>
      cases h
      exact ⟨rfl, by rw [Value.scalar?, Table.get?_insert, if_pos rfl]⟩
  | unset =>
      cases h
      exact ⟨rfl, rfl⟩
  | scalar old =>
      cases h
      exact ⟨rfl, rfl⟩

end ShellExpansion.Store
