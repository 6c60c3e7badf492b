import ShellExpansion.Proofs.Store.Assignment

/-! # Names that are open to arrays

An array can be assigned to a name that is unbound or that is an indexed array without attributes
(`Store.Open`).  The place is made ready without anything else being changed (`Open.prepare_spec`),
and what is put there is what the name is bound to afterwards. -/

namespace ShellExpansion.Store

variable {s s' : Store} {name : String} {b : Binding}

/-- Nothing stands against an array as the value of the name. -/
def Open (s : Store) (name : String) : Prop :=
  s.lookup name = none ∨
    ∃ elements generation, s.lookup name = some ⟨.indexed elements, .none, generation⟩

/-- A name that is no reference leads to itself, if references may be followed at all. -/
theorem resolve_of_link?_eq_none (hdepth : 1 ≤ s.limits.referenceDepth)
    (hlink : s.link? name = none) : s.resolve name = .ok (name, s.lookup name) := by
  obtain ⟨steps, hsteps⟩ : ∃ steps, s.limits.referenceDepth.toNat = steps + 1 :=
    ⟨s.limits.referenceDepth.toNat - 1, by omega⟩
  rw [resolve, hsteps, resolveFrom_succ, hlink]

theorem Open.link?_eq_none (h : s.Open name) : s.link? name = none := by
  rcases h with hnone | ⟨elements, generation, hsome⟩
  · rw [link?, hnone]
    rfl
  · exact Store.link?_eq_none hsome rfl

/-- What is put at a place that was just bound is the one write to it. -/
theorem sets_put_put (s : Store) (place : Place) (b b' : Binding) :
    Sets s (s.level place.scope place.name) place.name b' ((s.put place b).put place b') := by
  have hfirst := Sets.bind s place.scope place.name b
  have hsecond := Sets.bind (s.put place b) place.scope place.name b'
  rw [put, level_bind_self] at hsecond
  exact hfirst.trans hsecond

/-- **The place of an open name is made ready**: it has no attributes and no value but an indexed
array, and whatever is put there is the one binding that changes. -/
theorem Open.prepare_spec (h : s.Open name) (hname : isIdentifier name = true)
    (hdepth : 1 ≤ s.limits.referenceDepth) :
    ∃ s' b, s.prepare name .nearest = .ok (⟨.nearest, name⟩, s') ∧
      s'.get ⟨.nearest, name⟩ = b ∧ b.attributes = .none ∧
      (b.value = .unset ∨ ∃ elements, b.value = .indexed elements) ∧
      ∀ b', Sets s (s.level .nearest name) name b' (s'.put ⟨.nearest, name⟩ b') := by
  have hresolve := resolve_of_link?_eq_none hdepth h.link?_eq_none
  have hplace := place_nearest hresolve
  unfold prepare
  rw [hplace]
  dsimp only
  rcases h with hnone | ⟨elements, generation, hsome⟩
  · have hat : s.at? ⟨.nearest, name⟩ = none := hnone
    rw [hat]
    dsimp only
    rw [if_pos hname]
    have hget := get_of_at? (at?_put s ⟨.nearest, name⟩ .unset)
    refine ⟨_, .unset, rfl, hget, rfl, .inl rfl, fun b' => ?_⟩
    exact sets_put_put s ⟨.nearest, name⟩ .unset b'
  · have hat : s.at? ⟨.nearest, name⟩ = some ⟨.indexed elements, .none, generation⟩ := hsome
    rw [hat]
    refine ⟨s, _, rfl, get_of_at? hat, rfl, .inr ⟨elements, rfl⟩, fun b' => ?_⟩
    exact Sets.bind s .nearest name b'

theorem Open.of_sets {other : String} {elements : IndexedArray} {generation : Nat}
    (h : s.Open other)
    (hsets : Sets s (s.level .nearest name) name ⟨.indexed elements, .none, generation⟩ s') :
    s'.Open other := by
  unfold Open
  rw [hsets.lookup]
  split_ifs
  · exact .inr ⟨elements, generation, rfl⟩
  · exact h

end ShellExpansion.Store
