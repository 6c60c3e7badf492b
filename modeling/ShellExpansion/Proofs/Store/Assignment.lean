import ShellExpansion.Proofs.Store.Resolution

/-! # Assignments

An assignment writes one binding (`Sets`, `assign_sets`).  If it goes to the nearest binding of the
name at the end of a chain, no link of any chain changes, so that every name leads where it led
before: names that lead there read as the text that was assigned, and all others as before
(`assign_nearest_effect`). -/

namespace ShellExpansion.Store

/-! ### One binding written -/

/-- The second store is the first with a binding of a name written on a level. -/
structure Sets (s : Store) (level : Nat) (name : String) (b : Binding) (s' : Store) : Prop where
  slot? : ∀ level' other,
    s'.slot? level' other = if level' = level ∧ other = name then some b else s.slot? level' other
  header : ∀ level', (s'.frame? level').map Frame.header = (s.frame? level').map Frame.header
  depth : s'.depth = s.depth
  limits : s'.limits = s.limits

namespace Sets

variable {s s' s'' : Store} {level : Nat} {name : String} {b b' : Binding}

theorem bind (s : Store) (scope : Scope) (name : String) (b : Binding) :
    Sets s (s.level scope name) name b (s.bind scope name b) :=
  ⟨slot?_bind s scope name b, header_bind s scope name b, depth_bind .., limits_bind ..⟩

/-- Of two writes to one place the second one counts. -/
theorem trans (h : Sets s level name b s') (h' : Sets s' level name b' s'') :
    Sets s level name b' s'' := by
  refine ⟨fun level' other => ?_, fun level' => ?_, ?_, ?_⟩
  · rw [h'.slot?, h.slot?]
    split_ifs <;> rfl
  · rw [h'.header, h.header]
  · rw [h'.depth, h.depth]
  · rw [h'.limits, h.limits]

/-- A write to the nearest binding of a name leaves the nearest bindings of all names where they
are. -/
theorem level_nearest (h : Sets s (s.level .nearest name) name b s') (other : String) :
    s'.level .nearest other = s.level .nearest other := by
  refine level_congr h.depth (fun level hne => ?_) .nearest
  rw [h.slot?]
  split_ifs with heq
  · obtain ⟨rfl, rfl⟩ := heq
    exact ((level_nearest_eq_iff.mp rfl).2.1 hne).symm
  · rfl

/-- A write to the nearest binding of a name is what the name shows. -/
theorem lookup (h : Sets s (s.level .nearest name) name b s') (other : String) :
    s'.lookup other = if other = name then some b else s.lookup other := by
  rw [lookup_eq_slot?, lookup_eq_slot?, h.level_nearest, h.slot?]
  by_cases heq : other = name
  · rw [heq]
    simp
  · simp [heq]

end Sets

variable {s s' : Store} {name final text : String} {found : Option Binding} {place : Place}

/-- **An assignment writes one binding**, at the place it reports, which was not read-only. -/
theorem assign_sets {scope : Scope} {append : Bool}
    (h : s.assign name text scope append = .ok (place, s')) :
    s.place name scope = .ok place ∧ (∀ b ∈ s.at? place, b.attributes.readonly = false) ∧
      ∃ value, assigned (s.get place).value text append = .ok value ∧
        Sets s (s.level place.scope place.name) place.name ((s.get place).withValue value) s' := by
  obtain ⟨prepared, b, value, hprepare, hat, hreadonly, hvalue, rfl⟩ := assign_spec h
  obtain ⟨hplace, ⟨b', hat', hreadonly', rfl⟩ | ⟨hnone, -, rfl⟩⟩ := prepare_spec hprepare
  · rw [get_of_at? hat]
    refine ⟨hplace, fun b' hb' => ?_, value, hvalue, .bind ..⟩
    rw [hat] at hb'
    cases hb'
    exact hreadonly
  · rw [at?_put] at hat
    cases hat
    have hget : s.get place = .unset := by rw [Store.get, hnone, Option.getD_none]
    rw [hget]
    refine ⟨hplace, fun b hb => ?_, value, hvalue, ?_⟩
    · rw [hnone] at hb
      cases hb
    · have hsecond := Sets.bind (s.put place .unset) place.scope place.name
        (Binding.unset.withValue value)
      rw [put, level_bind_self] at hsecond
      exact (Sets.bind s place.scope place.name .unset).trans hsecond

/-! ### Reading after writing -/

theorem link?_eq_none {b : Binding} (hlookup : s.lookup name = some b)
    (hvalue : b.value.isReference = false) : s.link? name = none := by
  unfold link?
  rw [hlookup, Option.map_some]
  cases hb : b.value with
  | reference target =>
      rw [hb] at hvalue
      cases hvalue
  | _ => rfl

/-- A write of a value that is no reference to a name without a link changes no link. -/
theorem Sets.link? {b : Binding} (h : Sets s (s.level .nearest final) final b s')
    (hvalue : b.value.isReference = false) (hlink : s.link? final = none) (other : String) :
    s'.link? other = s.link? other := by
  by_cases heq : other = final
  · rw [heq, hlink]
    exact link?_eq_none (by rw [h.lookup, if_pos rfl]) hvalue
  · unfold Store.link?
    rw [h.lookup, if_neg heq]

/-- A name that leads to where a value was written leads there still, to the new binding. -/
theorem Sets.resolve_eq {b : Binding} (h : Sets s (s.level .nearest final) final b s')
    (hvalue : b.value.isReference = false) (hresolve : s.resolve name = .ok (final, found)) :
    s'.resolve name = .ok (final, some b) := by
  have hends := resolve_fst_congr h.limits (h.link? hvalue (resolve_spec hresolve).1) name
  rw [hresolve] at hends
  obtain ⟨⟨last, found'⟩, hresolve', hlast⟩ := exists_of_map_eq_ok hends
  obtain rfl : last = final := hlast
  rw [hresolve', (resolve_spec hresolve').2, h.lookup, if_pos rfl]

theorem Sets.binding?_eq {b : Binding} (h : Sets s (s.level .nearest final) final b s')
    (hvalue : b.value.isReference = false) (hresolve : s.resolve name = .ok (final, found)) :
    s'.binding? name = .ok (some b) :=
  binding?_of_resolve (h.resolve_eq hvalue hresolve)

theorem resolve_put {b : Binding} (hvalue : b.value.isReference = false)
    (hresolve : s.resolve name = .ok (final, found)) :
    (s.put ⟨.nearest, final⟩ b).resolve name = .ok (final, some b) :=
  (Sets.bind s .nearest final b).resolve_eq hvalue hresolve

theorem get_putValue (s : Store) (place : Place) (value : Value) :
    (s.putValue place value).get place = (s.get place).withValue value :=
  get_of_at? (at?_put ..)

/-- The place at the end of a chain is ready with the binding that it had, or with an empty one. -/
theorem prepare_of_resolve (hresolve : s.resolve name = .ok (final, found))
    (h : s.prepare name .nearest = .ok (place, s')) :
    place = ⟨.nearest, final⟩ ∧ s'.get place = found.getD .unset ∧
      s'.resolve name = .ok (final, some (found.getD .unset)) := by
  obtain ⟨hplace, hready⟩ := prepare_spec h
  rw [place_nearest hresolve] at hplace
  cases hplace
  have hfound : found = s.at? ⟨.nearest, final⟩ := (resolve_spec hresolve).2
  obtain ⟨b, hat, -, rfl⟩ | ⟨hnone, -, rfl⟩ := hready
  · rw [hat] at hfound
    rw [hfound] at hresolve ⊢
    exact ⟨rfl, get_of_at? hat, hresolve⟩
  · rw [hnone] at hfound
    rw [hfound] at hresolve ⊢
    exact ⟨rfl, get_of_at? (at?_put ..), resolve_put rfl hresolve⟩

/-- The place of a variable is ready as it is. -/
theorem prepare_of_resolve_some {b : Binding}
    (hresolve : s.resolve name = .ok (final, some b))
    (h : s.prepare name .nearest = .ok (place, s')) :
    place = ⟨.nearest, final⟩ ∧ s' = s ∧ b.attributes.readonly = false := by
  have hat : s.at? ⟨.nearest, final⟩ = some b := (resolve_spec hresolve).2.symm
  obtain ⟨hplace, hready⟩ := prepare_spec h
  rw [place_nearest hresolve] at hplace
  cases hplace
  obtain ⟨b', hat', hreadonly, hsame⟩ | ⟨hnone, -, -⟩ := hready
  · rw [hat] at hat'
    cases hat'
    exact ⟨rfl, hsame, hreadonly⟩
  · rw [hat] at hnone
    cases hnone

theorem prepare_eq_of_resolve {b : Binding}
    (hresolve : s.resolve name = .ok (final, some b))
    (hreadonly : b.attributes.readonly = false) :
    s.prepare name .nearest = .ok (⟨.nearest, final⟩, s) :=
  prepare_of_at? (place_nearest hresolve) (resolve_spec hresolve).2.symm hreadonly

/-- A name that was made ready leads to the place that is ready. -/
theorem resolve_of_prepare (h : s.prepare name .nearest = .ok (place, s')) :
    ∃ final, place = ⟨.nearest, final⟩ ∧ s'.resolve name = .ok (final, some (s'.get place)) := by
  obtain ⟨⟨final, found⟩, hresolve, -⟩ := exists_of_map_eq_ok (prepare_spec h).1
  obtain ⟨hplace, hget, hresolve'⟩ := prepare_of_resolve hresolve h
  exact ⟨final, hplace, by rw [hget, hresolve']⟩

/-- What holds of the binding that was found, and of one without a value, holds of the binding that
a write begins with. -/
theorem getD_unset_of_forall {p : Binding → Prop} (h : ∀ b ∈ found, p b) (hunset : p .unset) :
    p (found.getD .unset) := by
  cases found with
  | none => exact hunset
  | some b => exact h b rfl

/-- A variable that is no reference, or that is not bound yet, reads as the text that is assigned
to it. -/
theorem get?_of_assign (hresolve : s.resolve name = .ok (final, found))
    (hfound : ∀ b ∈ found, b.value.isReference = false)
    (hassign : s.assign name text .nearest false = .ok (place, s')) :
    s'.get? name = .ok (some text) := by
  obtain ⟨hplace, -, value, hvalue, hsets⟩ := assign_sets hassign
  rw [place_nearest hresolve] at hplace
  cases hplace
  have hold : (s.get ⟨.nearest, final⟩).value.isReference = false := by
    show ((s.lookup final).getD .unset).value.isReference = false
    rw [← (resolve_spec hresolve).2]
    exact getD_unset_of_forall hfound rfl
  obtain ⟨hnew, hread⟩ := assigned_spec hold hvalue
  rw [Store.get?, hsets.binding?_eq hnew hresolve]
  exact congrArg Except.ok hread

/-- A variable takes every text if it takes one. -/
theorem exists_assign {b : Binding} (hresolve : s.resolve name = .ok (final, some b))
    (hvalue : b.value.isReference = false)
    (h : s.assign name text .nearest false = .ok (place, s')) (other : String) :
    ∃ s'', s.assign name other .nearest false = .ok (place, s'') := by
  obtain ⟨prepared, b', value, hprepare, hat, -, -, -⟩ := assign_spec h
  obtain ⟨rfl, rfl, -⟩ := prepare_of_resolve_some hresolve hprepare
  have hat' : prepared.at? ⟨.nearest, final⟩ = some b := (resolve_spec hresolve).2.symm
  unfold assign
  rw [hprepare]
  dsimp only
  rw [get_of_at? hat']
  cases hold : b.value with
  | reference target =>
      rw [hold] at hvalue
      cases hvalue
  | _ => exact ⟨_, rfl⟩

/-- **Read over write**: after a text is assigned to a name that leads to a variable or to an
unbound name, all names lead where they led before, those that lead there read as the text, and all
others as before; and only the nearest binding of that last name is another. -/
theorem assign_nearest_effect (hresolve : s.resolve name = .ok (final, found))
    (hfound : ∀ b ∈ found, b.value.isReference = false)
    (hassign : s.assign name text .nearest false = .ok (place, s')) :
    (∀ other, (s'.resolve other).map Prod.fst = (s.resolve other).map Prod.fst) ∧
      (∀ other, (s.resolve other).map Prod.fst = .ok final → s'.get? other = .ok (some text)) ∧
      (∀ other, (s.resolve other).map Prod.fst ≠ .ok final → s'.get? other = s.get? other) ∧
      (∀ level other, (level, other) ≠ (s.level .nearest final, final) →
        s'.slot? level other = s.slot? level other) ∧
      (found = none → s.level .nearest final = 0) ∧ s'.depth = s.depth ∧
      ∀ level, (s'.frame? level).map Frame.header = (s.frame? level).map Frame.header := by
  obtain ⟨hplace, -, value, hvalue, hsets⟩ := assign_sets hassign
  rw [place_nearest hresolve] at hplace
  cases hplace
  obtain ⟨hlink, hlookup⟩ := resolve_spec hresolve
  have hold : (s.get ⟨.nearest, final⟩).value.isReference = false := by
    show ((s.lookup final).getD .unset).value.isReference = false
    rw [← hlookup]
    cases found with
    | none => rfl
    | some b => exact hfound b rfl
  obtain ⟨hnew, hread⟩ := assigned_spec hold hvalue
  have hlinks := hsets.link? hnew hlink
  have hresolves := resolve_fst_congr hsets.limits hlinks
  refine ⟨hresolves, fun other hother => ?_, fun other hother => ?_, fun level other hne => ?_,
    fun hnone => ?_, hsets.depth, hsets.header⟩
  · rw [get?_eq, hresolves, hother]
    show Except.ok ((s'.lookup final).bind (·.value.scalar?)) = _
    rw [hsets.lookup, if_pos rfl]
    exact congrArg Except.ok hread
  · rw [get?_eq, get?_eq, hresolves]
    cases hend : (s.resolve other).map Prod.fst with
    | error e => rfl
    | ok last =>
        have hlast : last ≠ final := fun heq => hother (by rw [hend, heq])
        show Except.ok ((s'.lookup last).bind (·.value.scalar?)) = _
        rw [hsets.lookup, if_neg hlast]
        rfl
  · rw [hsets.slot?, if_neg]
    rintro ⟨rfl, rfl⟩
    exact hne rfl
  · rw [hnone] at hlookup
    exact level_of_lookup_eq_none hlookup.symm

/-- In a call, a local reference leads to an outer array, whose element zero takes the text. -/
theorem assign_nearest_effect_outerArray :
    let s : Store := ⟨[⟨"f", ["1"], Table.empty.insert "r" ⟨.reference "a", .none, 0⟩⟩],
      ⟨"global", [], Table.empty.insert "a" ⟨.indexed (IndexedArray.singleton "x"), .none, 0⟩⟩,
      .standard⟩
    ∃ s', s.assign "r" "y" .nearest false = .ok (⟨.nearest, "a"⟩, s') ∧
      s'.get? "r" = .ok (some "y") ∧ s'.slot? 1 "r" = s.slot? 1 "r" := by
  intro s
  obtain ⟨s', hassign⟩ : ∃ s', s.assign "r" "y" .nearest false = .ok (⟨.nearest, "a"⟩, s') :=
    ⟨_, rfl⟩
  have hresolve : s.resolve "r" =
      .ok ("a", some ⟨.indexed (IndexedArray.singleton "x"), .none, 0⟩) := by decide
  obtain ⟨-, hget, -, hslot, -⟩ :=
    assign_nearest_effect hresolve (by simp [Value.isReference]) hassign
  refine ⟨s', hassign, hget "r" (by decide), hslot 1 "r" (by decide)⟩

end ShellExpansion.Store
