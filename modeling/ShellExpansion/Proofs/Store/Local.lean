import ShellExpansion.Proofs.Store.Changes

/-! # Declarations that stay in the innermost frame

The store of a call is the store that the call returns to with one more frame (`Store.calling`).  A
declaration for the innermost frame changes that frame alone as long as it does not follow a
reference out of it.  `Store.Inside` says that a store came by in this way: the frames below are
those of the store that the call returns to, and all bindings of the innermost frame have a property
that the declaration keeps.  Two such properties are those of a frame without references
(`Binding.IsPlain`), and of one with references to near names only (`Store.LeadsNear`). -/

namespace ShellExpansion

/-- The variable is no reference, and what is assigned to it is not evaluated. -/
structure Binding.IsPlain (b : Binding) : Prop where
  value : b.value.isReference = false
  integer : b.attributes.integer = false

namespace Store

variable {s s' outer : Store} {frame : Frame} {name : String} {b : Binding} {place : Place}
  {request : Declaration}

/-- The store with one more frame, the innermost one. -/
def calling (outer : Store) (frame : Frame) : Store := { outer with inner := frame :: outer.inner }

theorem eq_calling_of_pop? (h : s.pop? = some (frame, outer)) : s = outer.calling frame := by
  obtain ⟨inner, outermost, limits⟩ := s
  cases inner with
  | nil => cases h
  | cons top rest =>
      cases h
      rfl

theorem lookup_calling (outer : Store) (frame : Frame) (name : String) :
    (outer.calling frame).lookup name = (frame.bindings.get? name).or (outer.lookup name) := by
  unfold lookup calling frames
  rw [List.cons_append, List.findSome?_cons]
  cases frame.bindings.get? name <;> rfl

theorem bind_nearest_calling (h : (frame.bindings.get? name).isSome = true) (b : Binding) :
    (outer.calling frame).bind .nearest name b = outer.calling (frame.bind name b) := by
  simp only [bind, calling, modifyHolder?, h, if_true]

/-! ### Writes inside the frame -/

/-- A write to the place goes to the innermost frame. -/
def IsWithin (s : Store) (place : Place) : Prop :=
  place.scope = .current ∨
    place.scope = .nearest ∧ (s.find? .current place.name).isSome = true

theorem IsWithin.at? (h : s.IsWithin place) : s.at? place = s.find? .current place.name := by
  obtain ⟨scope, name⟩ := place
  obtain rfl | ⟨rfl, hbound⟩ := h
  · rfl
  · obtain ⟨b, hb⟩ := Option.isSome_iff_exists.mp hbound
    exact (lookup_of_find?_current hb).trans hb.symm

theorem IsWithin.put_calling (h : (outer.calling frame).IsWithin place) (b : Binding) :
    (outer.calling frame).put place b = outer.calling (frame.bind place.name b) := by
  obtain ⟨scope, name⟩ := place
  obtain rfl | ⟨rfl, hbound⟩ := h
  · rfl
  · exact bind_nearest_calling hbound b

/-- Above the frames of another store stands one frame.  It binds certain names, and its bindings
have a property. -/
def Inside (outer : Store) (bound : String → Prop) (q : String → Binding → Prop) (s : Store) :
    Prop :=
  ∃ frame, s = outer.calling frame ∧
    (∀ name, bound name → (frame.bindings.get? name).isSome = true) ∧
    ∀ name b, frame.bindings.get? name = some b → q name b

variable {bound : String → Prop} {q : String → Binding → Prop}

theorem redeclare_eq_put (h : s.redeclare place request = .ok s') :
    ∃ value, s' = s.put place
        ⟨value, redeclared (s.get place).attributes request, (s.get place).generation⟩ ∧
      (value = (s.get place).value ∨
        ∃ kind ∈ request.kind, converted place.name (s.get place).value kind = .ok value) := by
  unfold redeclare at h
  dsimp only at h
  split at h
  · cases h
  cases hkind : request.kind with
  | none =>
      rw [hkind] at h
      cases h
      exact ⟨_, rfl, .inl rfl⟩
  | some kind =>
      rw [hkind] at h
      dsimp only at h
      split_ifs at h
      · cases h
        exact ⟨_, rfl, .inl rfl⟩
      · cases hvalue : converted place.name (s.get place).value kind with
        | error fault =>
            rw [hvalue] at h
            cases h
        | ok value =>
            rw [hvalue] at h
            cases h
            exact ⟨value, rfl, .inr ⟨kind, rfl, hvalue⟩⟩

/-- The binding that a declaration makes of one with a property has it, too. -/
def Keeps (q : String → Binding → Prop) (request : Declaration) (name : String) : Prop :=
  ∀ b value, q name b →
    (value = b.value ∨ ∃ kind ∈ request.kind, converted name b.value kind = .ok value) →
    q name ⟨value, redeclared b.attributes request, b.generation⟩

namespace Inside

theorem find?_current (h : Inside outer bound q s) (hfind : s.find? .current name = some b) :
    q name b := by
  obtain ⟨frame, rfl, -, hq⟩ := h
  exact hq name b hfind

theorem pop? (h : Inside outer bound q s) : ∃ frame, s.pop? = some (frame, outer) := by
  obtain ⟨frame, rfl, -, -⟩ := h
  exact ⟨frame, rfl⟩

theorem put (h : Inside outer bound q s) (hplace : s.IsWithin place) (hb : q place.name b) :
    Inside outer bound q (s.put place b) := by
  obtain ⟨frame, rfl, hbound, hq⟩ := h
  refine ⟨_, hplace.put_calling b, fun name hname => ?_, fun name b' hb' => ?_⟩
  · rw [Frame.get?_bind]
    split_ifs
    · rfl
    · exact hbound name hname
  · rw [Frame.get?_bind] at hb'
    split_ifs at hb' with heq
    · cases hb'
      rw [heq]
      exact hb
    · exact hq name b' hb'

theorem redeclare (h : Inside outer bound q s) (hplace : s.IsWithin place)
    (hat : s.at? place = some b) (hkeeps : Keeps q request place.name)
    (hredeclare : s.redeclare place request = .ok s') : Inside outer bound q s' := by
  obtain ⟨value, rfl, hvalue⟩ := redeclare_eq_put hredeclare
  rw [get_of_at? hat] at hvalue ⊢
  have hb : q place.name b := h.find?_current (hplace.at?.symm.trans hat)
  exact h.put hplace (hkeeps b value hb hvalue)

/-- **A declaration for the innermost frame that is not led out of it changes this frame alone.** -/
theorem declare (h : Inside outer bound q s) (hscope : request.scope = .current)
    (hinherit : request.inherit = false)
    (hplace : ∀ b place, s.find? .current name = some b →
      s.declaredPlace name b request = .ok place → s.IsWithin place ∧ Keeps q request place.name)
    (hnew : q name .unset) (hkeeps : Keeps q request name) :
    Inside outer bound q (s.declare name request).2 := by
  unfold Store.declare
  split
  · exact h
  · rw [hscope]
    dsimp only
    cases hfind : s.find? .current name with
    | none =>
        have hcreated : Inside outer bound q (s.put ⟨.current, name⟩ .unset) :=
          h.put (.inl rfl) hnew
        rw [hinherit]
        dsimp only
        split
        · next hredeclare =>
          exact hcreated.redeclare (.inl rfl) (at?_put ..) hkeeps hredeclare
        · exact hcreated
    | some b =>
        dsimp only
        cases hdeclared : s.declaredPlace name b request with
        | error e => exact h
        | ok place =>
            obtain ⟨hwithin, hkeeps⟩ := hplace b place hfind hdeclared
            obtain ⟨b', hat⟩ := exists_at?_of_declaredPlace (hscope ▸ hfind) hdeclared
            dsimp only
            split
            · next hredeclare => exact h.redeclare hwithin hat hkeeps hredeclare
            · exact h

end Inside

/-! ### A frame without references -/

theorem redeclared_integer {attributes : Attributes} (hadd : Attribute.integer ∉ request.add)
    (h : attributes.integer = false) : (redeclared attributes request).integer = false := by
  unfold redeclared
  have hadded := List.foldlRecOn request.add
    (fun attributes a => Attributes.set attributes true a)
    (motive := fun attributes => attributes.integer = false) h fun attributes h a ha => by
      cases a <;> first | exact absurd ha hadd | exact h
  exact List.foldlRecOn request.remove (fun attributes a => Attributes.set attributes false a)
    (motive := fun attributes => attributes.integer = false) hadded fun attributes h a _ => by
      cases a <;> first | rfl | exact h

theorem isReference_eq_false_iff {value : Value} :
    value.isReference = false ↔ value.kind? ≠ some .reference := by
  cases value <;> simp [Value.isReference, Value.kind?]

theorem declaredPlace_of_isReference (h : b.value.isReference = false) (s : Store)
    (name : String) (request : Declaration) :
    s.declaredPlace name b request = .ok ⟨request.scope, name⟩ := by
  rw [declaredPlace, h]
  rfl

theorem keeps_isPlain (hkind : request.kind ≠ some .reference)
    (hadd : Attribute.integer ∉ request.add) (name : String) :
    Keeps (fun _ => Binding.IsPlain) request name := by
  intro b value hb hvalue
  refine ⟨?_, redeclared_integer hadd hb.integer⟩
  obtain rfl | ⟨kind, hsome, hconverted⟩ := hvalue
  · exact hb.value
  · refine isReference_eq_false_iff.mpr fun hreference => hkind ?_
    rw [converted_kind? hconverted] at hreference
    exact hsome.trans hreference

namespace Inside

/-- A frame without references keeps a declaration to itself. -/
theorem declaredPlace_plain (h : Inside outer bound (fun _ => Binding.IsPlain) s)
    (hscope : request.scope = .current) (b : Binding)
    (hfind : s.find? request.scope name = some b) :
    s.declaredPlace name b request = .ok ⟨request.scope, name⟩ := by
  rw [hscope] at hfind
  exact declaredPlace_of_isReference (h.find?_current hfind).value s name request

theorem declare_plain (h : Inside outer bound (fun _ => Binding.IsPlain) s)
    (hkind : request.kind ≠ some .reference) (hadd : Attribute.integer ∉ request.add)
    (hscope : request.scope = .current) (hinherit : request.inherit = false) (name : String) :
    Inside outer bound (fun _ => Binding.IsPlain) (s.declare name request).2 := by
  refine h.declare hscope hinherit (fun b place hfind hplace => ?_) ⟨rfl, rfl⟩
    (keeps_isPlain hkind hadd name)
  rw [← hscope] at hfind
  rw [h.declaredPlace_plain hscope b hfind] at hplace
  cases hplace
  exact ⟨.inl hscope, keeps_isPlain hkind hadd name⟩

/-- What was declared in a frame without references stands in that frame. -/
theorem find?_of_declare (h : Inside outer bound (fun _ => Binding.IsPlain) s)
    (hpointing : request.kind ≠ some .reference) (hscope : request.scope = .current)
    (hok : (s.declare name request).1 = .ok place) :
    ∃ b, (s.declare name request).2.find? .current name = some b := by
  obtain rfl := place_of_declare (h.declaredPlace_plain hscope) hok
  have hdeclared : Declared ⟨[], .current, false⟩ s request (s.declare name request) :=
    declare_declared s name request fun hkind => absurd hkind hpointing
  obtain ⟨b, hat, -⟩ := hdeclared.2 _ hok
  rw [← hscope]
  exact ⟨b, hat⟩

/-- A variable of the frame is where it is looked for. -/
theorem place_plain (h : Inside outer bound (fun _ => Binding.IsPlain) s)
    (hfind : s.find? .current name = some b) (hplace : s.place name .current = .ok place) :
    place = ⟨.current, name⟩ := by
  obtain ⟨⟨final, found⟩, hresolve, rfl⟩ := exists_of_map_eq_ok hplace
  have hlink := link?_eq_none (lookup_of_find?_current hfind) (h.find?_current hfind).value
  unfold resolve at hresolve
  cases hsteps : s.limits.referenceDepth.toNat with
  | zero =>
      rw [hsteps] at hresolve
      cases hresolve
  | succ steps =>
      rw [hsteps, resolveFrom_succ, hlink] at hresolve
      cases hresolve
      simp

theorem prepare_plain (h : Inside outer bound (fun _ => Binding.IsPlain) s)
    (hfind : s.find? .current name = some b)
    (hprepare : s.prepare name .current = .ok (place, s')) :
    place = ⟨.current, name⟩ ∧ s' = s := by
  obtain ⟨hplace, hready⟩ := prepare_spec hprepare
  obtain rfl := h.place_plain hfind hplace
  obtain ⟨b', -, -, rfl⟩ | ⟨hnone, -⟩ := hready
  · exact ⟨rfl, rfl⟩
  · rw [show s.at? ⟨.current, name⟩ = some b from hfind] at hnone
    cases hnone

theorem assign_plain (h : Inside outer bound (fun _ => Binding.IsPlain) s)
    (hfind : s.find? .current name = some b) {text : String} {append : Bool}
    (hassign : s.assign name text .current append = .ok (place, s')) :
    Inside outer bound (fun _ => Binding.IsPlain) s' := by
  obtain ⟨prepared, b', value, hprepare, hat, -, hvalue, rfl⟩ := assign_spec hassign
  obtain ⟨rfl, rfl⟩ := h.prepare_plain hfind hprepare
  obtain rfl : b' = b := Option.some.inj (hat.symm.trans hfind)
  have hb := h.find?_current hfind
  have hvalue : value.kind? ≠ some .reference := by
    intro hreference
    obtain hkind | ⟨-, hkind⟩ := (assigned_becomes hvalue).kind?_eq
    · exact isReference_eq_false_iff.mp hb.value (hkind.symm.trans hreference)
    · rw [hreference] at hkind
      cases hkind
  exact h.put (.inl (rfl : Place.scope ⟨.current, name⟩ = .current))
    ⟨isReference_eq_false_iff.mpr hvalue, hb.integer⟩

/-- No reference is ended where none is seen. -/
theorem dropReference_plain (h : Inside outer bound (fun _ => Binding.IsPlain) s)
    (hname : bound name ∨ ∀ b, outer.lookup name = some b → b.value.isReference = false) :
    s.dropReference name = s := by
  have hplain (b : Binding) (hlookup : s.lookup name = some b) : b.value.isReference = false := by
    obtain ⟨frame, rfl, hbound, hq⟩ := h
    rw [lookup_calling] at hlookup
    cases hfind : frame.bindings.get? name with
    | some b' =>
        rw [hfind] at hlookup
        cases hlookup
        exact (hq name b hfind).value
    | none =>
        rw [hfind] at hlookup
        refine hname.elim (fun hname => ?_) fun houter => houter b hlookup
        have hsome := hbound name hname
        rw [hfind] at hsome
        cases hsome
  unfold Store.dropReference
  cases hlookup : s.lookup name with
  | none => rfl
  | some b =>
      have hvalue := hplain b hlookup
      cases hcase : b.value with
      | reference target =>
          rw [hcase] at hvalue
          cases hvalue
      | _ => simp only [hcase]

end Inside

/-! ### A frame with references to near names -/

/-- The binding refers to a near name, if it is a reference, or comes to do so when it is made
one.  Only the variables of the given names may be made references. -/
structure LeadsNear (near : String → Prop) (names : List String) (name : String) (b : Binding) :
    Prop where
  reference : ∀ target, b.value = .reference target → target = "" ∨ near target
  scalar : name ∈ names → ∀ text, b.value = .scalar text → near text

variable {near : String → Prop} {names : List String}

theorem keeps_leadsNear (hname : request.kind = none ∨ name ∈ names) :
    Keeps (LeadsNear near names) request name := by
  intro b value hb hvalue
  obtain rfl | ⟨kind, hsome, hconverted⟩ := hvalue
  · exact ⟨hb.reference, hb.scalar⟩
  · have hnames : name ∈ names := hname.resolve_left fun hnone => nomatch hnone.symm.trans hsome
    refine ⟨fun target (heq : value = .reference target) => ?_,
      fun _ text (heq : value = .scalar text) => ?_⟩
    · rw [heq] at hconverted
      obtain rfl : kind = .reference := Option.some.inj (converted_kind? hconverted).symm
      cases hcase : b.value with
      | unset =>
          rw [hcase] at hconverted
          cases hconverted
          exact .inl rfl
      | scalar text =>
          rw [hcase] at hconverted
          unfold converted at hconverted
          dsimp only at hconverted
          split_ifs at hconverted
          cases hconverted
          exact .inr (hb.scalar hnames _ hcase)
      | reference old =>
          rw [hcase] at hconverted
          cases hconverted
          exact hb.reference _ hcase
      | _ =>
          rw [hcase] at hconverted
          cases hconverted
    · rw [heq] at hconverted
      cases converted_kind? hconverted

namespace Inside

/-- References of the frame lead to variables of the frame, or to names that nothing binds. -/
theorem find?_of_resolveFrom (h : Inside outer bound (LeadsNear near names) s)
    (hnear : ∀ target, near target → bound target ∨ outer.lookup target = none)
    {first final : String} {found : Option Binding} {steps : Nat} {visited : List String}
    (hname : (s.find? .current name).isSome = true ∨ s.lookup name = none)
    (hresolve : s.resolveFrom first steps visited name = .ok (final, found)) :
    (s.find? .current final).isSome = true ∨ s.lookup final = none := by
  have hnext {target : String} (htarget : near target) :
      (s.find? .current target).isSome = true ∨ s.lookup target = none := by
    obtain ⟨frame, rfl, hbound, -⟩ := h
    obtain hin | hnone := hnear target htarget
    · exact .inl (hbound target hin)
    · rw [lookup_calling, hnone, Option.or_none]
      cases hfind : frame.bindings.get? target with
      | none => exact .inr rfl
      | some b => exact .inl (Option.isSome_of_eq_some hfind)
  induction steps generalizing visited name with
  | zero => cases hresolve
  | succ steps ih =>
      rw [resolveFrom_succ] at hresolve
      cases hlink : s.link? name with
      | none =>
          rw [hlink] at hresolve
          cases hresolve
          exact hname
      | some target =>
          rw [hlink] at hresolve
          dsimp only at hresolve
          split_ifs at hresolve
          refine ih (hnext ?_) hresolve
          obtain ⟨b, hlookup, hvalue, hne⟩ := exists_of_link? hlink
          obtain hin | hnone := hname
          · obtain ⟨b', hfind⟩ := Option.isSome_iff_exists.mp hin
            rw [lookup_of_find?_current hfind] at hlookup
            cases hlookup
            exact ((h.find?_current hfind).reference target hvalue).resolve_left hne
          · rw [hnone] at hlookup
            cases hlookup

theorem isWithin_of_declaredPlace (h : Inside outer bound (LeadsNear near names) s)
    (hnear : ∀ target, near target → bound target ∨ outer.lookup target = none)
    (hscope : request.scope = .current) (hfind : s.find? .current name = some b)
    (hplace : s.declaredPlace name b request = .ok place) : s.IsWithin place := by
  unfold declaredPlace at hplace
  split at hplace
  · obtain ⟨⟨final, found⟩, hresolve, rfl⟩ := exists_of_map_eq_ok hplace
    dsimp only
    split_ifs with hfound
    · refine .inr ⟨rfl, (h.find?_of_resolveFrom hnear (.inl ?_) hresolve).resolve_right ?_⟩
      · exact Option.isSome_of_eq_some hfind
      · rw [← (resolve_spec hresolve).2]
        exact Option.isSome_iff_ne_none.mp hfound
    · exact .inl hscope
  · cases hplace
    exact .inl hscope

/-- A reference that is declared in the frame stands there. -/
theorem declare_reference (h : Inside outer bound (LeadsNear near names) s)
    (hkind : request.kind = some .reference) (hscope : request.scope = .current)
    (hinherit : request.inherit = false) (hname : name ∈ names) :
    Inside outer bound (LeadsNear near names) (s.declare name request).2 := by
  refine h.declare hscope hinherit (fun b place _ hplace => ?_) ⟨nofun, nofun⟩
    (keeps_leadsNear (.inr hname))
  rw [declaredPlace_of_reference hkind] at hplace
  cases hplace
  exact ⟨.inl hscope, keeps_leadsNear (.inr hname)⟩

/-- Attributes that are declared reach a variable of the frame, also through references. -/
theorem declare_attributes (h : Inside outer bound (LeadsNear near names) s)
    (hnear : ∀ target, near target → bound target ∨ outer.lookup target = none)
    (hkind : request.kind = none) (hscope : request.scope = .current)
    (hinherit : request.inherit = false) (name : String) :
    Inside outer bound (LeadsNear near names) (s.declare name request).2 :=
  h.declare hscope hinherit
    (fun _ _ hfind hplace =>
      ⟨h.isWithin_of_declaredPlace hnear hscope hfind hplace, keeps_leadsNear (.inl hkind)⟩)
    ⟨nofun, nofun⟩ (keeps_leadsNear (.inl hkind))

theorem setReference (h : Inside outer bound (LeadsNear near names) s) (hname : name ∈ names)
    {target : String} (htarget : near target) :
    Inside outer bound (LeadsNear near names) (s.setReference name target .current).2 := by
  have hdeclare : Inside outer bound (LeadsNear near names)
      (s.declare name ⟨some .reference, [], [], .current, false⟩).2 :=
    h.declare_reference rfl rfl rfl hname
  unfold Store.setReference
  cases hrun : s.declare name ⟨some .reference, [], [], .current, false⟩ with
  | mk result s' =>
      rw [hrun] at hdeclare
      cases result with
      | error fault => exact hdeclare
      | ok place =>
          obtain rfl : place = ⟨.current, name⟩ :=
            place_of_declare (fun b _ => declaredPlace_of_reference rfl s name b) (by rw [hrun])
          dsimp only
          split_ifs
          · exact hdeclare
          · exact hdeclare
          · exact hdeclare
          · have hleads : LeadsNear near names name
                ((s'.get ⟨.current, name⟩).withValue (.reference target)) := by
              refine ⟨fun target' heq => ?_, fun _ _ heq => nomatch heq⟩
              cases heq
              exact .inr htarget
            exact hdeclare.put (.inl (rfl : Place.scope ⟨.current, name⟩ = .current)) hleads

end Inside

end Store

end ShellExpansion
