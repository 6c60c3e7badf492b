import ShellExpansion.Proofs.Store.Open
import ShellExpansion.Store.Declare

/-! # Declaring in the innermost frame

A declaration without a reference and without attributes to remove writes one binding of the
innermost frame: a new one, with a value of the kind that is asked for (`declare_new`), or the one
that is there (`declare_again`).  What the innermost frame binds is what the name shows
(`lookup_of_find?_current`), and an array that stands there can be assigned to
(`prepare_current`). -/

namespace ShellExpansion.Store

variable {s s' : Store} {name : String} {b : Binding}

/-! ### The innermost frame -/

theorem find?_current_of_lookup (h : s.lookup name = none) : s.find? .current name = none := by
  cases hfound : s.find? .current name with
  | none => rfl
  | some b =>
      rw [lookup_of_find?_current hfound] at h
      cases h

namespace Sets

/-- A binding written in the innermost frame stands there. -/
theorem find?_current (h : Sets s s.depth name b s') : s'.find? .current name = some b := by
  rw [find?_eq_slot?, h.slot?]
  exact if_pos ⟨h.depth, rfl⟩

theorem put_current (h : Sets s s.depth name b s') (b' : Binding) :
    Sets s s.depth name b' (s'.put ⟨.current, name⟩ b') := by
  have hput := Sets.bind s' .current name b'
  rw [show s'.level .current name = s.depth from h.depth] at hput
  exact h.trans hput

/-- A write to one name changes no other. -/
theorem lookup_of_ne {level : Nat} (h : Sets s level name b s') {other : String}
    (hne : other ≠ name) : s'.lookup other = s.lookup other := by
  have hslot : ∀ level', s'.slot? level' other = s.slot? level' other := by
    intro level'
    rw [h.slot?, if_neg fun heq => hne heq.2]
  have hlevel : s'.level .nearest other = s.level .nearest other :=
    level_congr h.depth (fun level' _ => by rw [hslot]) .nearest
  rw [lookup_eq_slot?, lookup_eq_slot?, hlevel, hslot]

end Sets

/-- A variable of the innermost frame that is no reference and not read-only can be written. -/
theorem prepare_current (hfound : s.find? .current name = some b)
    (hvalue : b.value.isReference = false) (hreadonly : b.attributes.readonly = false)
    (hdepth : 1 ≤ s.limits.referenceDepth) :
    s.prepare name .current = .ok (⟨.current, name⟩, s) := by
  have hlookup := lookup_of_find?_current hfound
  have hresolve := resolve_of_link?_eq_none hdepth (link?_eq_none hlookup hvalue)
  have hplace : s.place name .current = .ok ⟨.current, name⟩ := by
    rw [place, hresolve]
    simp [Except.map]
  exact prepare_of_at? hplace hfound hreadonly

/-! ### Declarations -/

variable (request : Declaration)

theorem redeclare_unset {place : Place} (hget : s.get place = .unset) {kind : Attribute}
    (hkind : request.kind = some kind) {value : Value}
    (hvalue : converted place.name .unset kind = .ok value) :
    s.redeclare place request = .ok (s.put place ⟨value, redeclared .none request, 0⟩) := by
  have hother : ¬Value.unset.kind? = some kind := by simp [Value.kind?]
  unfold redeclare
  rw [hget]
  simp only [Binding.unset, Attributes.none, hkind, if_neg hother, hvalue, Bool.and_false,
    Bool.false_eq_true, if_false]

theorem redeclare_kept {place : Place} (hget : s.get place = b) (hkind : request.kind = none)
    (hremove : request.remove = []) : s.redeclare place request =
      .ok (s.put place { b with attributes := redeclared b.attributes request }) := by
  unfold redeclare
  rw [hget, hkind, hremove]
  rfl

/-- **A declaration of a new variable** gives it the kind that is asked for, and the attributes. -/
theorem declare_new (hname : isIdentifier name = true) (hscope : request.scope = .current)
    (hunbound : s.lookup name = none) (hinherit : request.inherit = false) {kind : Attribute}
    (hkind : request.kind = some kind) {value : Value}
    (hvalue : converted name .unset kind = .ok value) :
    ∃ s', s.declare name request = (.ok ⟨.current, name⟩, s') ∧
      Sets s s.depth name ⟨value, redeclared .none request, 0⟩ s' := by
  have hfind := find?_current_of_lookup hunbound
  have hget := get_of_at? (at?_put s ⟨.current, name⟩ .unset)
  refine ⟨_, ?_, sets_put_put s ⟨.current, name⟩ .unset _⟩
  unfold declare
  simp only [hname, hfind, hscope, hinherit, Bool.not_true, Bool.false_eq_true, if_false]
  rw [show s.bind .current name (s.created name false) = s.put ⟨.current, name⟩ .unset from rfl,
    redeclare_unset request hget hkind hvalue]

/-- **A declaration of a variable that is there** changes its attributes only, if it asks for no
kind. -/
theorem declare_again (hname : isIdentifier name = true) (hscope : request.scope = .current)
    (hfound : s.find? .current name = some b) (hvalue : b.value.isReference = false)
    (hkind : request.kind = none) (hremove : request.remove = []) :
    s.declare name request = (.ok ⟨.current, name⟩, s.put ⟨.current, name⟩
      { b with attributes := redeclared b.attributes request }) := by
  have hplace : s.declaredPlace name b request = .ok ⟨request.scope, name⟩ := by
    rw [declaredPlace, hvalue]
    rfl
  have hget : s.get ⟨.current, name⟩ = b := get_of_at? hfound
  unfold declare
  simp only [hname, hscope, hfound, hplace, Bool.not_true, Bool.false_eq_true, if_false]
  rw [redeclare_kept request hget hkind hremove]

end ShellExpansion.Store
