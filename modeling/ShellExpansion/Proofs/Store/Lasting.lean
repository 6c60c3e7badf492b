import ShellExpansion.Proofs.Store.ReadOnly

/-! # What changes keep

What holds of a store holds of it after every change, and after every call that is entered or left,
if none of these takes it away (`Kept`).  This goes for the frames, as changes are about what frames
hold (`Change.sameFrames`), and for what is known of the values of all names, if it is known of
every value that a change can put in the place of another (`Lasting`, `Lasting.kept`).  A chain of
references that ends at a variable or an unbound name still ends there after writes
(`Writes.resolve_rewritten`). -/

namespace ShellExpansion.Store

variable {s s' : Store} {place : Place} {name : String} {b : Binding} {rights : Rights}

/-- No call that is entered or left takes a property of stores away. -/
structure KeptByCalls (p : Store → Prop) : Prop where
  push {s s' : Store} {name : String} {args : List String} (hpush : s.push name args = .ok s')
    (h : p s) : p s'
  pop {s s' : Store} {frame : Frame} (hpop : s.pop? = some (frame, s')) (h : p s) : p s'

/-- No change and no call takes a property of stores away. -/
structure Kept (rights : Rights) (p : Store → Prop) : Prop extends KeptByCalls p where
  change {s s' : Store} (hchange : Change rights s s') (h : p s) : p s'

theorem Kept.changes {p : Store → Prop} (hp : Kept rights p) (hchanges : Changes rights s s')
    (h : p s) : p s' := by
  induction hchanges with
  | refl => exact h
  | tail _ hchange ih => exact hp.change hchange ih

/-! ### Frames -/

/-- The frames of the stores differ in what they hold only. -/
structure SameFrames (s s' : Store) : Prop where
  depth : s'.depth = s.depth
  limits : s'.limits = s.limits
  names : ∀ level, (s'.frame? level).map Frame.name = (s.frame? level).map Frame.name

namespace SameFrames

theorem refl (s : Store) : SameFrames s s := ⟨rfl, rfl, fun _ => rfl⟩

theorem trans {s'' : Store} (h : SameFrames s s') (h' : SameFrames s' s'') : SameFrames s s'' :=
  ⟨h'.depth.trans h.depth, h'.limits.trans h.limits, fun level =>
    (h'.names level).trans (h.names level)⟩

theorem outermost (h : SameFrames s s') : s'.outermost.name = s.outermost.name :=
  Option.some.inj (h.names 0)

theorem bind (s : Store) (scope : Scope) (name : String) (b : Binding) :
    SameFrames s (s.bind scope name b) where
  depth := depth_bind ..
  limits := limits_bind ..
  names level := by
    rw [frame?_bind]
    split_ifs
    · rw [Option.map_map]
      rfl
    · rfl

theorem unbind (s : Store) (name : String) : SameFrames s (s.unbind name) where
  depth := depth_unbind ..
  limits := limits_unbind ..
  names level := by
    rw [frame?_unbind]
    split_ifs
    · rw [Option.map_map]
      rfl
    · rfl

theorem setPositional (s : Store) (args : List String) : SameFrames s (s.setPositional args) where
  depth := depth_modifyCurrent ..
  limits := by
    obtain ⟨inner, outermost, limits⟩ := s
    cases inner <;> rfl
  names level := by
    unfold Store.setPositional
    rw [frame?_modifyCurrent]
    split_ifs
    · rw [Option.map_map]
      rfl
    · rfl

theorem dropReference (s : Store) (name : String) : SameFrames s (s.dropReference name) := by
  obtain heq | ⟨b, target, -, -, heq⟩ := s.dropReference_cases name
  · rw [heq]
    exact refl s
  · rw [heq]
    exact bind ..

end SameFrames

theorem Change.sameFrames (h : Change rights s s') : SameFrames s s' := by
  cases h with
  | write _ _ hwrite => cases hwrite <;> exact .bind ..
  | dropReference => exact .dropReference ..
  | remove => exact .unbind ..
  | setPositional => exact .setPositional ..
  | _ => exact .bind ..

theorem Changes.sameFrames (h : Changes rights s s') : SameFrames s s' := by
  induction h with
  | refl => exact .refl s
  | tail _ hchange ih => exact ih.trans hchange.sameFrames

theorem Writes.sameFrames {scope : Scope} (h : Writes scope s s') : SameFrames s s' :=
  Changes.sameFrames (.of_writes (rfl : Rights.pointing ⟨[], scope, false⟩ = false) h)

/-- The outermost frame belongs to no call, and not more calls are under way than are allowed. -/
structure Framed (bounds : Limits) (s : Store) : Prop where
  limits : s.limits = bounds
  outermost : s.outermost.name = outermostName
  depth : (s.depth : Int) ≤ bounds.callDepth

theorem keptByCalls_framed (bounds : Limits) : KeptByCalls (Framed bounds) where
  push {s s' name args} hpush h := by
    unfold Store.push at hpush
    split_ifs at hpush with hfull
    cases hpush
    refine ⟨h.limits, h.outermost, ?_⟩
    rw [h.limits] at hfull
    show ((s.inner.length + 1 : Nat) : Int) ≤ bounds.callDepth
    have hdepth : s.depth = s.inner.length := rfl
    omega
  pop {s s' frame} hpop h := by
    obtain ⟨hlimits, houtermost, hdepth⟩ := h
    obtain ⟨inner, outermost, limits⟩ := s
    cases inner with
    | nil => cases hpop
    | cons first rest =>
        cases hpop
        have hcons : (Store.mk (frame :: rest) outermost limits).depth = rest.length + 1 := rfl
        refine ⟨hlimits, houtermost, ?_⟩
        show (rest.length : Int) ≤ bounds.callDepth
        omega

theorem kept_framed (rights : Rights) (bounds : Limits) : Kept rights (Framed bounds) where
  toKeptByCalls := keptByCalls_framed bounds
  change hchange h := by
    obtain ⟨hdepth, hlimits, -⟩ := hchange.sameFrames
    exact ⟨hlimits.trans h.limits, hchange.sameFrames.outermost.trans h.outermost,
      hdepth ▸ h.depth⟩

/-! ### References -/

section references

variable {final : String} (h : Writes .nearest s s')

include h

theorem Writes.lookup (hlookup : s.lookup name = some b) :
    ∃ b', s'.lookup name = some b' ∧ b.Rewritten True b' := by
  rw [lookup_eq_slot?] at hlookup
  obtain ⟨b', hslot, hrewritten⟩ := h.exists_slot? hlookup
  refine ⟨b', ?_, hrewritten.mono fun _ => .inr (by decide)⟩
  rw [lookup_eq_slot?, h.level]
  exact hslot

theorem Writes.link? {target : String} (hlink : s.link? name = some target) :
    s'.link? name = some target := by
  obtain ⟨b, hlookup, hvalue, hne⟩ := exists_of_link? hlink
  obtain ⟨b', hlookup', hrewritten⟩ := h.lookup hlookup
  refine link?_of_lookup hlookup' ?_ hne
  rw [hrewritten.target trivial target hne hvalue, hvalue]

/-- **Writes to the nearest bindings of names lead references where they led**, if this is to a
variable that is none or to an unbound name.  What is found there was rewritten. -/
theorem Writes.resolve_rewritten {found : Option Binding}
    (hresolve : s.resolve name = .ok (final, found))
    (hvalue : ∀ b ∈ found, b.value.isReference = false) :
    ∃ found', s'.resolve name = .ok (final, found') ∧
      ∀ b ∈ found', (found.getD .unset).Rewritten True b := by
  have hrewritten : ∀ b ∈ s'.lookup final, (found.getD .unset).Rewritten True b := by
    intro b hb
    have hfinal := h.rewritten final
    rwa [hb, ← (resolve_spec hresolve).2] at hfinal
  have hend : s'.link? final = none := by
    cases hlookup : s'.lookup final with
    | none =>
        rw [Store.link?, hlookup]
        rfl
    | some b =>
        have hnew := (hrewritten b hlookup).value.isReference
        exact link?_eq_none hlookup (hnew.trans (getD_unset_of_forall hvalue rfl))
  have hfrom (first : String) (steps : Nat) (visited : List String) (name : String)
      (hresolve : s.resolveFrom first steps visited name = .ok (final, found)) :
      s'.resolveFrom first steps visited name = .ok (final, s'.lookup final) := by
    induction steps generalizing visited name with
    | zero => cases hresolve
    | succ steps ih =>
        rw [resolveFrom_succ] at hresolve ⊢
        cases hlink : s.link? name with
        | none =>
            rw [hlink] at hresolve
            obtain ⟨rfl, rfl⟩ := Prod.mk.inj (Except.ok.inj hresolve)
            rw [hend]
        | some target =>
            rw [hlink] at hresolve
            rw [h.link? hlink]
            dsimp only at hresolve ⊢
            split_ifs at hresolve ⊢
            exact ih _ _ hresolve
  refine ⟨s'.lookup final, ?_, hrewritten⟩
  unfold Store.resolve at hresolve ⊢
  rw [h.sameFrames.limits]
  exact hfrom _ _ _ _ hresolve

/-- A variable that a name leads to is there still. -/
theorem Writes.resolve (hresolve : s.resolve name = .ok (final, some b))
    (hvalue : b.value.isReference = false) :
    ∃ b', s'.resolve name = .ok (final, some b') ∧ b.Rewritten True b' := by
  have hfound : ∀ b' ∈ some b, b'.value.isReference = false := by
    rintro _ ⟨⟩
    exact hvalue
  obtain ⟨found, hresolve', hrewritten⟩ := h.resolve_rewritten hresolve hfound
  obtain ⟨b', hlookup, -⟩ := h.lookup (resolve_spec hresolve).2.symm
  obtain rfl : found = some b' := (resolve_spec hresolve').2.trans hlookup
  exact ⟨b', hresolve', hrewritten b' rfl⟩

/-- An indexed array that a name leads to is one still after writes. -/
theorem Writes.resolve_indexed (hresolve : s.resolve name = .ok (final, some b))
    (hvalue : b.value.kind? = some .indexed) :
    ∃ b' elements, s'.resolve name = .ok (final, some b') ∧ b'.attributes = b.attributes ∧
      b'.value = .indexed elements := by
  have hplain : b.value.isReference = false := by
    cases hold : b.value with
    | reference target =>
        rw [hold] at hvalue
        cases hvalue
    | _ => rfl
  obtain ⟨b', hresolve', hrewritten⟩ := h.resolve hresolve hplain
  have hkind : b'.value.kind? = some .indexed := by
    obtain hkind | ⟨hnone, -⟩ := hrewritten.value.kind?_eq
    · rw [hkind, hvalue]
    · rw [hvalue] at hnone
      cases hnone
  obtain ⟨value, attributes, generation⟩ := b'
  cases value with
  | indexed elements => exact ⟨_, elements, hresolve', hrewritten.attributes, rfl⟩
  | _ => cases hkind

end references

/-! ### Values -/

/-- Something is known of all names and the values that they are bound to. -/
def EveryValue (q : String → Value → Prop) (s : Store) : Prop :=
  ∀ ⦃level name b⦄, s.slot? level name = some b → q name b.value

/-- What is known of a name and its value is known of it and every value that a change puts in the
place of that one, and of every name and a variable without a value. -/
structure Lasting (rights : Rights) (q : String → Value → Prop) : Prop where
  unset {name : String} (hname : isIdentifier name = true) : q name .unset
  written {name : String} {old value : Value} (h : q name old) (hpointing : rights.pointing = false)
    (hvalue : old.Becomes value) (htarget : rights.scope ≠ .outermost → old.KeepsTarget value) :
    q name value
  converted {name : String} {old value : Value} {kind : Attribute} (h : q name old)
    (hvalue : converted name old kind = .ok value)
    (hpointing : kind = .reference → rights.pointing = true) : q name value
  pointed {name old target : String} (h : q name (.reference old))
    (hpointing : rights.pointing = true) (htarget : isIdentifier target = true)
    (hne : target ≠ name) : q name (.reference target)
  ended {name target : String} (h : q name (.reference target)) : q name (endedReference target)

section values

variable {q : String → Value → Prop}

theorem EveryValue.at? (h : s.EveryValue q) (hat : s.at? place = some b) :
    q place.name b.value := by
  rw [Store.at?, find?_eq_slot?] at hat
  exact h hat

theorem EveryValue.lookup (h : s.EveryValue q) (hlookup : s.lookup name = some b) :
    q name b.value := by
  have hat : s.at? ⟨.nearest, name⟩ = some b := hlookup
  exact h.at? hat

theorem EveryValue.put (h : s.EveryValue q) (hb : q place.name b.value) :
    (s.put place b).EveryValue q := by
  intro level name b' hslot
  rw [Store.put, slot?_bind] at hslot
  split_ifs at hslot with heq
  · cases hslot
    exact heq.2 ▸ hb
  · exact h hslot

theorem everyValue_cons {frame : Frame} {rest : List Frame} {outermost : Frame} {limits : Limits} :
    (Store.mk (frame :: rest) outermost limits).EveryValue q ↔
      (∀ name b, frame.bindings.get? name = some b → q name b.value) ∧
        (Store.mk rest outermost limits).EveryValue q := by
  constructor
  · intro h
    refine ⟨fun name b hb => ?_, fun level name b hslot => ?_⟩
    · have htop : (Store.mk (frame :: rest) outermost limits).slot? (rest.length + 1) name =
          some b := by
        rw [slot?_cons, if_pos rfl]
        exact hb
      exact h htop
    · have hlevel : level ≤ rest.length := Holds.le_depth (p := fun _ => True) ⟨b, hslot, trivial⟩
      have hbelow : (Store.mk (frame :: rest) outermost limits).slot? level name = some b := by
        rw [slot?_cons, if_neg (by omega)]
        exact hslot
      exact h hbelow
  · rintro ⟨hframe, hrest⟩ level name b hslot
    rw [slot?_cons] at hslot
    split_ifs at hslot
    · exact hframe name b hslot
    · exact hrest hslot

theorem keptByCalls_everyValue (q : String → Value → Prop) : KeptByCalls (EveryValue q) where
  push hpush h := by
    unfold Store.push at hpush
    split_ifs at hpush
    cases hpush
    exact everyValue_cons.mpr ⟨fun _ _ hb => (nomatch hb), h⟩
  pop {s s' frame} hpop h := by
    obtain ⟨inner, outermost, limits⟩ := s
    cases inner with
    | nil => cases hpop
    | cons first rest =>
        cases hpop
        exact (everyValue_cons.mp h).2

namespace Lasting

variable (hq : Lasting rights q)

include hq

/-- A declared variable starts without a value, or with the value of the one that it hides. -/
theorem created (h : s.EveryValue q) (hname : isIdentifier name = true) (inherit : Bool) :
    q name (s.created name inherit).value := by
  unfold Store.created
  split
  · next hlookup =>
    have hvalue := h.lookup hlookup
    exact hvalue
  · exact hq.unset hname

theorem write (hpointing : rights.pointing = false)
    (hscope : place.scope = .nearest ∨ place.scope = rights.scope) (hwrite : Write place s s')
    (h : s.EveryValue q) : s'.EveryValue q := by
  cases hwrite with
  | create hat hname => exact h.put (hq.unset hname)
  | update generation hat hreadonly hvalue htarget =>
      refine h.put (hq.written (h.at? hat) hpointing hvalue fun hne => htarget ?_)
      rcases hscope with hscope | hscope
      · rw [hscope]
        decide
      · exact hscope ▸ hne

theorem change (hchange : Change rights s s') (h : s.EveryValue q) : s'.EveryValue q := by
  cases hchange with
  | write hpointing hscope hwrite => exact hq.write hpointing hscope hwrite h
  | create inherit hat hname => exact h.put (hq.created h hname inherit)
  | redeclare hat hvalue hattributes =>
      have hold := h.at? hat
      rcases hvalue with rfl | ⟨-, kind, hvalue, hkind⟩
      · exact h.put hold
      · exact h.put (hq.converted hold hvalue hkind)
  | point hpointing hat hreadonly hvalue htarget hne =>
      exact h.put (hq.pointed (hvalue ▸ h.at? hat) hpointing htarget hne)
  | @dropReference name hended =>
      obtain heq | ⟨b, target, hlookup, hvalue, heq⟩ := s.dropReference_cases name
      · rw [heq]
        exact h
      · rw [heq]
        exact h.put (hq.ended (hvalue ▸ h.lookup hlookup))
  | remove hreadonly =>
      intro level name b hslot
      rw [slot?_unbind] at hslot
      split_ifs at hslot
      exact h hslot
  | setPositional args =>
      intro level name b hslot
      rw [slot?_setPositional] at hslot
      exact h hslot

/-- **What is known of all values stays known.** -/
theorem kept : Kept rights (EveryValue q) where
  toKeptByCalls := keptByCalls_everyValue q
  change := hq.change

end Lasting

end values

end ShellExpansion.Store
