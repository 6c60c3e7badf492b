import ShellExpansion.Proofs.Store.Resolution

/-! # Stores under other bounds

The bounds of a store decide only how long a chain of references may be.  A chain that ends within
a bound ends at the same place within every larger one (`resolveFrom_mono`), so that what is read or
written through references under one bound is read or written in the same way under a larger one
(`get?_loosen`, `assign_loosen`). -/

namespace ShellExpansion.Store

variable {s s' : Store} {limits strict loose : Limits} {name : String} {scope : Scope}

/-- The store with other bounds. -/
def under (s : Store) (limits : Limits) : Store := { s with limits := limits }

/-! ### What no bound decides -/

theorem link?_under (s : Store) (limits : Limits) (name : String) :
    (s.under limits).link? name = s.link? name := rfl

theorem at?_under (s : Store) (limits : Limits) (place : Place) :
    (s.under limits).at? place = s.at? place := by
  obtain ⟨scope, name⟩ := place
  cases scope <;> rfl

theorem get_under (s : Store) (limits : Limits) (place : Place) :
    (s.under limits).get place = s.get place := by
  rw [Store.get, Store.get, at?_under]

theorem put_under (s : Store) (limits : Limits) (place : Place) (b : Binding) :
    (s.under limits).put place b = (s.put place b).under limits := by
  obtain ⟨inner, outermost, bounds⟩ := s
  obtain ⟨scope, name⟩ := place
  cases scope with
  | nearest =>
      simp only [put, bind, under]
      cases modifyHolder? name (·.bind name b) inner <;> rfl
  | current => cases inner <;> rfl
  | outermost => rfl

theorem putValue_under (s : Store) (limits : Limits) (place : Place) (value : Value) :
    (s.under limits).putValue place value = (s.putValue place value).under limits := by
  rw [putValue, putValue, get_under, put_under]

theorem resolveFrom_under (s : Store) (limits : Limits) (first : String) (steps : Nat)
    (visited : List String) (name : String) :
    (s.under limits).resolveFrom first steps visited name =
      s.resolveFrom first steps visited name := by
  induction steps generalizing visited name with
  | zero => rfl
  | succ steps ih =>
      rw [resolveFrom_succ, resolveFrom_succ, link?_under]
      cases s.link? name with
      | none => rfl
      | some target =>
          dsimp only
          rw [ih]

/-! ### Larger bounds -/

/-- **A chain that ends within a bound ends there within every larger one.** -/
theorem resolveFrom_mono {first : String} {steps more : Nat} (hmore : steps ≤ more)
    {visited : List String} {result : String × Option Binding}
    (h : s.resolveFrom first steps visited name = .ok result) :
    s.resolveFrom first more visited name = .ok result := by
  induction steps generalizing more visited name with
  | zero => cases h
  | succ steps ih =>
      obtain ⟨rest, rfl⟩ : ∃ rest, more = rest + 1 := ⟨more - 1, by omega⟩
      have hrest : steps ≤ rest := by omega
      rw [resolveFrom_succ] at h ⊢
      cases hlink : s.link? name with
      | none =>
          rw [hlink] at h
          exact h
      | some target =>
          rw [hlink] at h
          dsimp only at h ⊢
          split_ifs at h ⊢
          exact ih hrest h

variable (hdepth : strict.referenceDepth ≤ loose.referenceDepth)

include hdepth

theorem resolve_loosen {result : String × Option Binding}
    (h : (s.under strict).resolve name = .ok result) :
    (s.under loose).resolve name = .ok result := by
  unfold resolve at h ⊢
  rw [resolveFrom_under] at h ⊢
  have hsteps : strict.referenceDepth.toNat ≤ loose.referenceDepth.toNat := by omega
  exact resolveFrom_mono hsteps h

theorem binding?_loosen {found : Option Binding} (h : (s.under strict).binding? name = .ok found) :
    (s.under loose).binding? name = .ok found := by
  obtain ⟨⟨final, found⟩, hresolve, rfl⟩ := exists_of_map_eq_ok h
  exact binding?_of_resolve (resolve_loosen hdepth hresolve)

theorem get?_loosen {text : Option String} (h : (s.under strict).get? name = .ok text) :
    (s.under loose).get? name = .ok text := by
  obtain ⟨found, hfound, rfl⟩ := exists_of_map_eq_ok h
  rw [get?, binding?_loosen hdepth hfound]
  rfl

theorem place_loosen {place : Place} (h : (s.under strict).place name scope = .ok place) :
    (s.under loose).place name scope = .ok place := by
  obtain ⟨result, hresolve, rfl⟩ := exists_of_map_eq_ok h
  rw [Store.place, resolve_loosen hdepth hresolve]
  rfl

theorem prepare_loosen {place : Place}
    (h : (s.under strict).prepare name scope = .ok (place, s')) :
    ∃ s'' : Store, s' = s''.under strict ∧
      (s.under loose).prepare name scope = .ok (place, s''.under loose) := by
  unfold prepare at h ⊢
  cases hplace : (s.under strict).place name scope with
  | error e =>
      rw [hplace] at h
      cases h
  | ok found =>
      rw [hplace] at h
      rw [place_loosen hdepth hplace]
      dsimp only at h ⊢
      rw [at?_under] at h ⊢
      cases hat : s.at? found with
      | some b =>
          rw [hat] at h
          dsimp only at h ⊢
          split_ifs at h ⊢
          cases h
          exact ⟨s, rfl, rfl⟩
      | none =>
          rw [hat] at h
          dsimp only at h ⊢
          split_ifs at h ⊢
          rw [put_under] at h ⊢
          cases h
          exact ⟨_, rfl, rfl⟩

theorem assign_loosen {place : Place} {text : String} {append : Bool}
    (h : (s.under strict).assign name text scope append = .ok (place, s')) :
    ∃ s'' : Store, s' = s''.under strict ∧
      (s.under loose).assign name text scope append = .ok (place, s''.under loose) := by
  unfold assign at h ⊢
  cases hprepare : (s.under strict).prepare name scope with
  | error e =>
      rw [hprepare] at h
      cases h
  | ok result =>
      obtain ⟨target, prepared⟩ := result
      obtain ⟨bare, rfl, hloose⟩ := prepare_loosen hdepth hprepare
      rw [hprepare] at h
      rw [hloose]
      dsimp only at h ⊢
      rw [get_under] at h ⊢
      cases hassigned : assigned (bare.get target).value text append with
      | error e =>
          rw [hassigned] at h
          cases h
      | ok value =>
          rw [hassigned] at h
          dsimp only at h ⊢
          rw [putValue_under] at h ⊢
          cases h
          exact ⟨_, rfl, rfl⟩

end ShellExpansion.Store
