import ShellExpansion.Proofs.Store.Lasting

/-! # References to themselves

A reference whose target is its own name leads nowhere.  Declarations make none: where one would
come about, they are refused (`setReference_self`, `declare_self`), and those that are not refused
leave a store without one (`kept_pointing`).  An assignment to a reference without a target takes
its text as the target and does not look at the name (`assign_refers_iff`).  So assignments leave a
store without references to themselves only if there are no references without a target, and if they
are not meant for the outermost frame, where they also find references that have one
(`lasting_assigning`). -/

namespace ShellExpansion.Store

variable {s s' : Store} {name target : String} {scope : Scope} {rights : Rights}

/-- In one of the frames the name is bound to a reference to the target. -/
def Refers (s : Store) (name target : String) : Prop :=
  ∃ frame ∈ s.frames, (frame.bindings.get? name).map Binding.value = some (.reference target)

instance (s : Store) (name target : String) : Decidable (s.Refers name target) :=
  inferInstanceAs (Decidable (∃ frame ∈ s.frames, _))

/-- If the name is this one, the value is no reference to the target. -/
def Avoids (name target other : String) (value : Value) : Prop :=
  other = name → value ≠ .reference target

theorem not_refers_iff : ¬ s.Refers name target ↔ s.EveryValue (Avoids name target) := by
  constructor
  · rintro h level other b hslot rfl hvalue
    obtain ⟨frame, hframe, hget⟩ := Option.bind_eq_some_iff.mp hslot
    exact h ⟨frame, mem_frames_iff.mpr ⟨level, hframe⟩, by rw [hget, Option.map_some, hvalue]⟩
  · rintro h ⟨frame, hmem, hvalue⟩
    obtain ⟨level, hframe⟩ := mem_frames_iff.mp hmem
    obtain ⟨b, hget, hb⟩ := Option.map_eq_some_iff.mp hvalue
    exact h (Option.bind_eq_some_iff.mpr ⟨frame, hframe, hget⟩) rfl hb

theorem endedReference_ne (target other : String) : endedReference target ≠ .reference other := by
  unfold endedReference
  split_ifs <;> exact nofun

/-! ### Declarations -/

theorem lasting_pointing (hpointing : rights.pointing = true) (hname : name ≠ "") :
    Lasting rights (Avoids name name) where
  unset _ _ := nofun
  written _ hassigns := by
    rw [hpointing] at hassigns
    cases hassigns
  converted h hvalue _ := by
    rintro rfl rfl
    rcases reference_of_converted hvalue with hold | ⟨-, hempty | ⟨-, hne⟩⟩
    · exact h rfl hold
    · exact hname hempty
    · exact hne rfl
  pointed _ _ _ hne := by
    rintro rfl hself
    exact hne (Value.reference.inj hself)
  ended {_ target} _ _ := endedReference_ne target name

/-- **Declarations make no references to themselves.** -/
theorem kept_pointing (hpointing : rights.pointing = true) (hname : name ≠ "") :
    Kept rights (EveryValue (Avoids name name)) :=
  (lasting_pointing hpointing hname).kept

theorem declare_not_refers (hname : name ≠ "") (h : ¬ s.Refers name name) (other : String)
    (request : Declaration) : ¬ (s.declare other request).2.Refers name name := by
  have hkept : Kept ⟨[], .nearest, true⟩ (EveryValue (Avoids name name)) := kept_pointing rfl hname
  rw [not_refers_iff] at h ⊢
  exact hkept.changes (s.declare_changes other request fun _ => rfl) h

theorem setReference_not_refers (hname : name ≠ "") (h : ¬ s.Refers name name)
    (other target : String) (scope : Scope) :
    ¬ (s.setReference other target scope).2.Refers name name := by
  have hkept : Kept ⟨[], .nearest, true⟩ (EveryValue (Avoids name name)) := kept_pointing rfl hname
  rw [not_refers_iff] at h ⊢
  exact hkept.changes (setReference_changes rfl s other target scope) h

/-- A name that can be pointed somewhere cannot be pointed to itself. -/
theorem setReference_self {place : Place} (h : (s.setReference name target scope).1 = .ok place) :
    (s.setReference name name scope).1 = .error (.error (.referenceCycle name)) := by
  unfold setReference at h ⊢
  cases hdeclare : s.declare name ⟨some .reference, [], [], scope, false⟩ with
  | mk result s' =>
      rw [hdeclare] at h
      cases result with
      | error fault => cases h
      | ok place' =>
          have hname : isIdentifier name = true := isIdentifier_of_declare (by rw [hdeclare])
          dsimp only at h ⊢
          split_ifs at h with hreadonly
          rw [if_neg hreadonly, if_neg (by simp [hname]), if_pos rfl]

/-- The variable that a declaration of a name finds in its frame, or creates there. -/
def declaredBinding (s : Store) (name : String) (request : Declaration) : Binding :=
  (s.find? request.scope name).getD (s.created name request.inherit)

theorem redeclare_self {place : Place} {b : Binding} {request : Declaration}
    (hat : s.at? place = some b) (hname : isIdentifier place.name = true)
    (hkind : request.kind = some .reference) (hvalue : b.value = .scalar place.name)
    (hreadonly : b.attributes.readonly = false) :
    s.redeclare place request = .error (.error (.referenceCycle place.name)) := by
  have hconverted : converted place.name (.scalar place.name) .reference =
      .error (.error (.referenceCycle place.name)) := by
    simp [converted, hname]
  unfold redeclare
  rw [get_of_at? hat, hkind]
  simp [hreadonly, hvalue, hconverted, Value.kind?]

/-- A variable whose value is its own name cannot be made a reference. -/
theorem declare_self {request : Declaration} (hname : isIdentifier name = true)
    (hkind : request.kind = some .reference)
    (hvalue : (s.declaredBinding name request).value = .scalar name)
    (hreadonly : (s.declaredBinding name request).attributes.readonly = false) :
    (s.declare name request).1 = .error (.error (.referenceCycle name)) := by
  have hredeclare {s : Store} {b : Binding} (hat : s.at? ⟨request.scope, name⟩ = some b)
      (hvalue : b.value = .scalar name) (hreadonly : b.attributes.readonly = false) :
      s.redeclare ⟨request.scope, name⟩ request = .error (.error (.referenceCycle name)) :=
    redeclare_self hat hname hkind hvalue hreadonly
  unfold declaredBinding at hvalue hreadonly
  unfold declare
  rw [if_neg (by simp [hname])]
  cases hfind : s.find? request.scope name with
  | none =>
      rw [hfind] at hvalue hreadonly
      have hat : (s.bind request.scope name (s.created name request.inherit)).at?
          ⟨request.scope, name⟩ = some (s.created name request.inherit) :=
        at?_put s ⟨request.scope, name⟩ _
      dsimp only
      rw [hredeclare hat hvalue hreadonly]
  | some b =>
      rw [hfind] at hvalue hreadonly
      have hplace : s.declaredPlace name b request = .ok ⟨request.scope, name⟩ := by
        simp [declaredPlace, hkind]
      dsimp only
      rw [hplace]
      dsimp only
      rw [hredeclare hfind hvalue hreadonly]

/-! ### Assignments -/

/-- What is assigned refers to the name if the name is assigned to a reference. -/
theorem assigned_refers_iff {old value : Value} {text : String} {append : Bool}
    (h : assigned old text append = .ok value) :
    value = .reference name ↔ old.isReference = true ∧ text = name := by
  unfold assigned at h
  cases old with
  | reference target =>
      dsimp only at h
      split_ifs at h
      cases h
      simp [Value.isReference]
  | _ =>
      cases h
      simp [Value.isReference]

/-- **An assignment makes a reference to itself** when it is to a reference, and of its name. -/
theorem assign_refers_iff {place : Place} {text : String} {append : Bool}
    (h : s.assign name text scope append = .ok (place, s')) :
    (s'.get place).value = .reference place.name ↔
      (s.get place).value.isReference = true ∧ text = place.name := by
  obtain ⟨prepared, b, value, hprepare, hat, -, hvalue, rfl⟩ := assign_spec h
  have hget : s.get place = b := by
    obtain ⟨-, ⟨_, _, _, rfl⟩ | ⟨hnone, -, rfl⟩⟩ := prepare_spec hprepare
    · exact get_of_at? hat
    · rw [at?_put] at hat
      cases hat
      rw [Store.get, hnone, Option.getD_none]
  rw [hget, get_of_at? (at?_put ..)]
  exact assigned_refers_iff hvalue

theorem lasting_assigning (hpointing : rights.pointing = false)
    (hscope : rights.scope ≠ .outermost) :
    Lasting rights fun other value =>
      Avoids name name other value ∧ Avoids name "" other value where
  unset _ := ⟨fun _ => nofun, fun _ => nofun⟩
  written {other old value} h _ hvalue htarget := by
    -- What became a reference was one before, and had a target that it kept.
    have hkept (target : String) (heq : other = name) (hreference : value = .reference target) :
        old = .reference target := by
      cases hvalue with
      | reference target' =>
          have hne : target' ≠ "" := fun hempty => h.2 heq (hempty ▸ rfl)
          rw [← htarget hscope target' hne rfl, hreference]
      | refl => exact hreference
      | _ => cases hreference
    exact ⟨fun heq hself => h.1 heq (hkept name heq hself),
      fun heq hempty => h.2 heq (hkept "" heq hempty)⟩
  converted {other old value kind} h hvalue hkind := by
    have hkept (target : String) (hreference : value = .reference target) :
        old = .reference target := by
      rw [hreference] at hvalue
      refine (reference_of_converted hvalue).resolve_right fun hmade => ?_
      rw [hkind hmade.1] at hpointing
      cases hpointing
    exact ⟨fun heq hself => h.1 heq (hkept name hself),
      fun heq hempty => h.2 heq (hkept "" hempty)⟩
  pointed _ hpoints := by
    rw [hpointing] at hpoints
    cases hpoints
  ended {_ target} _ :=
    ⟨fun _ => endedReference_ne target name, fun _ => endedReference_ne target ""⟩

/-- Where a reference of the name to itself would come about, an operation that does not assign
fails and makes none; an assignment makes one of every reference that it gives its own name. -/
structure GuardsSelfReference (s : Store) (name : String) : Prop where
  declare : name ≠ "" → ¬ s.Refers name name → ∀ other request,
    ¬ (s.declare other request).2.Refers name name
  setReference : name ≠ "" → ¬ s.Refers name name → ∀ other target scope,
    ¬ (s.setReference other target scope).2.Refers name name
  setReference_self : ∀ target scope place, (s.setReference name target scope).1 = .ok place →
    (s.setReference name name scope).1 = .error (.error (.referenceCycle name))
  declare_self : ∀ request, isIdentifier name = true → request.kind = some .reference →
    (s.declaredBinding name request).value = .scalar name →
    (s.declaredBinding name request).attributes.readonly = false →
    (s.declare name request).1 = .error (.error (.referenceCycle name))
  assign : ∀ text scope append place s', s.assign name text scope append = .ok (place, s') →
    ((s'.get place).value = .reference place.name ↔
      (s.get place).value.isReference = true ∧ text = place.name)

theorem guardsSelfReference (s : Store) (name : String) : s.GuardsSelfReference name where
  declare := declare_not_refers
  setReference := setReference_not_refers
  setReference_self _ _ _ := setReference_self
  declare_self _ := declare_self
  assign _ _ _ _ _ := assign_refers_iff

end ShellExpansion.Store
