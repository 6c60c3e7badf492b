import ShellExpansion.Proofs.Store.Changes

/-! # Read-only variables

What is known of a read-only binding stays known when no change can take it away (`Firm`): changes
leave a read-only binding where it stands, read-only, and with its value, unless the value is a
reference that is ended (`Change.holds`), and calls that are entered or left do not touch it as long
as its frame stays (`Holds.push`, `Holds.pop`).  So a read-only value that is no reference is fixed
(`firm_fixed`), and a read-only reference stays pointed under changes that do not end references by
its name (`firm_pointed`). -/

namespace ShellExpansion.Store

variable {s s' : Store} {place : Place} {name target : String} {b : Binding} {level : Nat}
  {value : Value} {ended : List String} {rights : Rights} {p : Binding → Prop}

/-- A name is bound on a level, and this is known of its binding. -/
def Holds (s : Store) (level : Nat) (name : String) (p : Binding → Prop) : Prop :=
  ∃ b, s.slot? level name = some b ∧ p b

/-- A name is bound to a read-only value on a level, which is no reference. -/
def Fixed (s : Store) (level : Nat) (name : String) (value : Value) : Prop :=
  ∃ b, s.slot? level name = some b ∧ b.value = value ∧ value.isReference = false ∧
    b.attributes.readonly = true

/-- The value of a variable whose reference to a target was ended. -/
def endedReference (target : String) : Value := if target = "" then .unset else .scalar target

/-- What is known of a binding of the name is that it is read-only, and perhaps its value; when the
reference in it may be ended, it is known of what is left, too. -/
structure Firm (ended : List String) (name : String) (p : Binding → Prop) : Prop where
  readonly : ∀ {b}, p b → b.attributes.readonly = true
  attributes : ∀ {b} {attributes : Attributes}, p b → attributes.readonly = true →
    p ⟨b.value, attributes, b.generation⟩
  dropped : name ∈ ended → ∀ {b target}, p b → b.value = .reference target →
    p (b.withValue (endedReference target))

theorem Firm.mono {ended' : List String} (hp : Firm ended name p) (h : ended' ⊆ ended) :
    Firm ended' name p :=
  ⟨hp.readonly, hp.attributes, fun hname => hp.dropped (h hname)⟩

theorem firm_fixed (ended : List String) (name : String) (value : Value) :
    Firm ended name fun b =>
      b.value = value ∧ value.isReference = false ∧ b.attributes.readonly = true where
  readonly h := h.2.2
  attributes h hreadonly := ⟨h.1, h.2.1, hreadonly⟩
  dropped _ _ target h hvalue := by
    rw [← h.1, hvalue] at h
    cases h.2.1

theorem firm_pointed (hname : name ∉ ended) (target : String) :
    Firm ended name fun b => b.value = .reference target ∧ b.attributes.readonly = true where
  readonly h := h.2
  attributes h hreadonly := ⟨h.1, hreadonly⟩
  dropped h := absurd h hname

/-- A read-only reference that is ended leaves its target as a read-only text. -/
theorem firm_held (ended : List String) (name target : String) :
    Firm ended name fun b => (b.value = .reference target ∨ b.value = endedReference target) ∧
      b.attributes.readonly = true where
  readonly h := h.2
  attributes h hreadonly := ⟨h.1, hreadonly⟩
  dropped _ b other h hvalue := by
    refine ⟨.inr ?_, h.2⟩
    rcases h.1 with hreference | hended
    · rw [hvalue] at hreference
      cases hreference
      rfl
    · rw [hvalue] at hended
      unfold endedReference at hended
      split_ifs at hended

/-! ### Changes -/

theorem holds_congr (hslot : s'.slot? level name = s.slot? level name)
    (h : s.Holds level name p) : s'.Holds level name p := by
  obtain ⟨b, hb, hp⟩ := h
  exact ⟨b, hslot.trans hb, hp⟩

/-- What is put at a place may only be a binding of which the same is known, if it was known of the
one that stood there. -/
theorem holds_put (h : s.Holds level name p)
    (hput : ∀ old, name = place.name → s.at? place = some old → p old → p b) :
    (s.put place b).Holds level name p := by
  obtain ⟨old, hslot, hold⟩ := h
  by_cases heq : level = s.level place.scope place.name ∧ name = place.name
  · have hat : s.at? place = some old := by
      rw [at?, find?_eq_slot?, ← heq.1, ← heq.2, hslot]
    exact ⟨b, by rw [put, slot?_bind, if_pos heq], hput old heq.2 hat hold⟩
  · exact ⟨old, by rw [put, slot?_bind, if_neg heq, hslot], hold⟩

/-- Where nothing stood, nothing was known. -/
theorem holds_put_unbound (h : s.Holds level name p) (hat : s.at? place = none) :
    (s.put place b).Holds level name p :=
  holds_put h fun _ _ hold => by
    rw [hat] at hold
    cases hold

theorem holds_put_of_at? {old : Binding} (h : s.Holds level name p) (hat : s.at? place = some old)
    (hput : p old → p b) : (s.put place b).Holds level name p :=
  holds_put h fun found _ hfound hp => by
    cases hat.symm.trans hfound
    exact hput hp

theorem slot?_setPositional (s : Store) (args : List String) (level : Nat) (name : String) :
    (s.setPositional args).slot? level name = s.slot? level name := by
  unfold slot? setPositional
  rw [frame?_modifyCurrent]
  split_ifs
  · cases s.frame? level <;> rfl
  · rfl

/-- Ending the reference of a name changes its nearest binding, if that is a reference. -/
theorem dropReference_cases (s : Store) (name : String) : s.dropReference name = s ∨
    ∃ b target, s.lookup name = some b ∧ b.value = .reference target ∧
      s.dropReference name = s.put ⟨.nearest, name⟩ (b.withValue (endedReference target)) := by
  unfold Store.dropReference
  cases hlookup : s.lookup name with
  | none => exact .inl rfl
  | some b =>
      cases hvalue : b.value with
      | reference target =>
          refine .inr ⟨b, target, rfl, hvalue, ?_⟩
          dsimp only
          rw [hvalue]
          rfl
      | _ =>
          dsimp only
          rw [hvalue]
          exact .inl rfl

/-- **No change takes away what is known of a read-only binding.** -/
theorem Change.holds (hp : Firm rights.ended name p) (hchange : Change rights s s')
    (h : s.Holds level name p) : s'.Holds level name p := by
  -- A binding of which it is known is read-only, so that no other binding is put in its place.
  have hwritable {old b : Binding} (hfalse : old.attributes.readonly = false) (hold : p old) :
      p b := by
    rw [hp.readonly hold] at hfalse
    cases hfalse
  cases hchange with
  | write hpointing hscope hwrite =>
      cases hwrite with
      | create hat hname => exact holds_put_unbound h hat
      | update generation hat hfalse hvalue htarget =>
          exact holds_put_of_at? h hat (hwritable hfalse)
  | create inherit hat hname => exact holds_put_unbound h hat
  | redeclare hat hvalue hattributes =>
      refine holds_put_of_at? h hat fun hold => ?_
      rcases hvalue with rfl | ⟨hfalse, -⟩
      · exact hp.attributes hold (hattributes (hp.readonly hold))
      · exact hwritable hfalse hold
  | point hpointing hat hfalse hvalue htarget hne =>
      exact holds_put_of_at? h hat (hwritable hfalse)
  | @dropReference other hother =>
      obtain heq | ⟨b, target, hlookup, hvalue, heq⟩ := s.dropReference_cases other
      · rw [heq]
        exact h
      · rw [heq]
        apply holds_put h
        intro old hname hold hold'
        cases hlookup.symm.trans hold
        exact hp.dropped (hname ▸ hother) hold' hvalue
  | @remove other hfalse =>
      obtain ⟨b, hslot, hb⟩ := id h
      by_cases heq : level = s.level .nearest other ∧ name = other
      · have hlookup : s.lookup other = some b := by
          rw [lookup_eq_slot?, ← heq.1, ← heq.2, hslot]
        have hreadonly := hp.readonly hb
        rw [hfalse b hlookup] at hreadonly
        cases hreadonly
      · exact holds_congr (by rw [slot?_unbind, if_neg heq]) h
  | setPositional args => exact holds_congr (slot?_setPositional ..) h

theorem Changes.holds (hp : Firm rights.ended name p) (hchanges : Changes rights s s')
    (h : s.Holds level name p) : s'.Holds level name p := by
  induction hchanges with
  | refl => exact h
  | tail _ hchange ih => exact hchange.holds hp ih

/-! ### Calls -/

theorem slot?_push {args : List String} (h : s.push name args = .ok s') (hlevel : level ≤ s.depth)
    (other : String) : s'.slot? level other = s.slot? level other := by
  unfold push at h
  split_ifs at h
  cases h
  rw [slot?_cons]
  exact if_neg (Nat.ne_of_lt (Nat.lt_succ_of_le hlevel))

theorem slot?_pop {frame : Frame} (h : s.pop? = some (frame, s')) (hlevel : level ≤ s'.depth)
    (other : String) : s'.slot? level other = s.slot? level other := by
  obtain ⟨inner, outermost, limits⟩ := s
  cases inner with
  | nil => cases h
  | cons first rest =>
      cases h
      rw [slot?_cons]
      exact (if_neg (Nat.ne_of_lt (Nat.lt_succ_of_le hlevel))).symm

/-- A binding stands on one of the levels that there are. -/
theorem Holds.le_depth (h : s.Holds level name p) : level ≤ s.depth := by
  obtain ⟨b, hslot, -⟩ := h
  by_contra hlevel
  rw [slot?, frame?_of_lt (by omega)] at hslot
  cases hslot

theorem Holds.push {call : String} {args : List String} (h : s.Holds level name p)
    (hpush : s.push call args = .ok s') : s'.Holds level name p :=
  holds_congr (slot?_push hpush h.le_depth name) h

theorem Holds.pop {frame : Frame} (h : s.Holds level name p)
    (hpop : s.pop? = some (frame, s')) (hlevel : level ≤ s'.depth) : s'.Holds level name p :=
  holds_congr (slot?_pop hpop hlevel name) h

end ShellExpansion.Store
