import Mathlib.Logic.Relation
import ShellExpansion.Proofs.Store.Assignment

/-! # Writes

Everything that expansions, expressions and assignments do to a store is a sequence of writes
(`Writes`).  A write binds an identifier that was not bound at a place, without a value, or gives a
binding that is not read-only another value of a kind that it can become (`Value.Becomes`).  Only
where the outermost frame is meant can it take a target away from a reference.  Writes leave all
bindings in their frames, with their attributes (`Writes.exists_slot?`), and writes to the nearest
bindings of names move no place, so that one that was ready to be written stays ready
(`Writes.exists_at?`). -/

namespace ShellExpansion

/-- What a write can make of a value.  Only a variable without an array or a reference in it changes
its kind, and only to an indexed array. -/
inductive Value.Becomes : Value → Value → Prop
  | refl (value : Value) : Becomes value value
  | scalar {old : Value} (h : old.kind? = none) (text : String) : Becomes old (.scalar text)
  | indexed {old : Value} (h : old.kind? = none ∨ old.kind? = some .indexed)
      (elements : IndexedArray) : Becomes old (.indexed elements)
  | associative (old new : Table String) : Becomes (.associative old) (.associative new)
  | reference (old : String) {target : String} (h : isIdentifier target = true) :
      Becomes (.reference old) (.reference target)

namespace Value.Becomes

variable {old value new : Value}

theorem trans (h : old.Becomes value) (h' : value.Becomes new) : old.Becomes new := by
  cases h' with
  | refl => exact h
  | scalar hkind text =>
      cases h with
      | refl => exact .scalar hkind text
      | scalar hold => exact .scalar hold text
      | _ => cases hkind
  | indexed hkind elements =>
      cases h with
      | refl => exact .indexed hkind elements
      | scalar hold => exact .indexed (.inl hold) elements
      | indexed hold => exact .indexed hold elements
      | _ => simp [Value.kind?] at hkind
  | associative _ new =>
      cases h with
      | refl => exact .associative _ new
      | associative old => exact .associative old new
  | reference _ htarget =>
      cases h with
      | refl => exact .reference _ htarget
      | reference old => exact .reference old htarget

/-- A value that can become an indexed array still can when it has become another one. -/
theorem kind? (h : old.Becomes value) (hold : old.kind? = none ∨ old.kind? = some .indexed) :
    value.kind? = none ∨ value.kind? = some .indexed := by
  cases h with
  | refl => exact hold
  | scalar => exact .inl rfl
  | indexed => exact .inr rfl
  | _ => simp [Value.kind?] at hold

/-- A value keeps its kind, or becomes an indexed array without having had one. -/
theorem kind?_eq (h : old.Becomes new) :
    new.kind? = old.kind? ∨ old.kind? = none ∧ new.kind? = some .indexed := by
  cases h with
  | refl => exact .inl rfl
  | scalar hkind => exact .inl hkind.symm
  | indexed hkind => exact hkind.elim (fun hnone => .inr ⟨hnone, rfl⟩) fun hsome => .inl hsome.symm
  | associative => exact .inl rfl
  | reference => exact .inl rfl

/-- Only a reference becomes a reference, and it becomes nothing else. -/
theorem isReference (h : old.Becomes new) : new.isReference = old.isReference := by
  cases h with
  | scalar hkind =>
      cases old with
      | reference target => cases hkind
      | _ => rfl
  | indexed hkind =>
      cases old with
      | reference target => simp [Value.kind?] at hkind
      | _ => rfl
  | _ => rfl

/-- A reference that has a target does not lose it, though it may get another one. -/
theorem exists_target {target : String} (h : Becomes (.reference target) new)
    (htarget : target ≠ "") : ∃ target' ≠ "", new = .reference target' := by
  cases h with
  | refl => exact ⟨target, htarget, rfl⟩
  | @reference _ target' hname =>
      refine ⟨target', ?_, rfl⟩
      rintro rfl
      cases hname
  | scalar hkind => cases hkind
  | indexed hkind => simp [Value.kind?] at hkind

theorem exists_of_associative {old : Table String} (h : Becomes (.associative old) value) :
    ∃ elements, value = .associative elements := by
  cases h with
  | refl => exact ⟨old, rfl⟩
  | associative _ elements => exact ⟨elements, rfl⟩
  | scalar hkind => cases hkind
  | indexed hkind => simp [Value.kind?] at hkind

theorem of_associative {old : Table String} (h : Becomes (.associative old) value)
    (new : Table String) : value.Becomes (.associative new) := by
  obtain ⟨elements, rfl⟩ := h.exists_of_associative
  exact .associative elements new

theorem insertKey (value : Value) (key text : String) :
    value.Becomes (value.insertKey key text) := by
  cases value with
  | associative elements => exact .associative _ _
  | _ => exact .refl _

theorem insertIndex (value : Value) (index : Nat) (text : String) :
    value.Becomes (value.insertIndex index text) := by
  cases value with
  | indexed elements => exact .indexed (.inr rfl) _
  | _ => exact .refl _

end Value.Becomes

/-- A reference that has a target stays as it is. -/
def Value.KeepsTarget (old new : Value) : Prop :=
  ∀ target, target ≠ "" → old = .reference target → new = old

namespace Value.KeepsTarget

variable {old value new : Value}

theorem refl (value : Value) : value.KeepsTarget value := fun _ _ _ => rfl

theorem trans (h : old.KeepsTarget value) (h' : value.KeepsTarget new) : old.KeepsTarget new := by
  intro target hne hold
  have hvalue : value = old := h target hne hold
  rw [h' target hne (hvalue.trans hold), hvalue]

theorem of_becomes (h : old.Becomes new) (hnew : new.isReference = false) :
    old.KeepsTarget new := by
  rintro target - rfl
  cases h with
  | scalar hkind => cases hkind
  | indexed hkind => simp [Value.kind?] at hkind
  | _ => cases hnew

theorem insertKey (value : Value) (key text : String) :
    value.KeepsTarget (value.insertKey key text) := by
  rintro target - rfl
  rfl

theorem insertIndex (value : Value) (index : Nat) (text : String) :
    value.KeepsTarget (value.insertIndex index text) := by
  rintro target - rfl
  rfl

end Value.KeepsTarget

/-- What writes make of a binding: it has the attributes it had, and a value that the one it had can
become.  A reference that is steady keeps the target that it has. -/
structure Binding.Rewritten (steady : Prop) (old new : Binding) : Prop where
  attributes : new.attributes = old.attributes
  value : old.value.Becomes new.value
  target : steady → old.value.KeepsTarget new.value

namespace Binding.Rewritten

variable {steady steady' : Prop} {old b new : Binding}

theorem refl (b : Binding) : Rewritten steady b b := ⟨rfl, .refl _, fun _ => .refl _⟩

theorem trans (h : Rewritten steady old b) (h' : Rewritten steady b new) :
    Rewritten steady old new :=
  ⟨h'.attributes.trans h.attributes, h.value.trans h'.value, fun hsteady =>
    (h.target hsteady).trans (h'.target hsteady)⟩

theorem mono (h : Rewritten steady old new) (hsteady : steady' → steady) :
    Rewritten steady' old new :=
  ⟨h.attributes, h.value, fun h' => h.target (hsteady h')⟩

end Binding.Rewritten

namespace Store

variable {s s' : Store} {place : Place} {scope : Scope} {name : String}

/-- A write to a place. -/
inductive Write (place : Place) (s : Store) : Store → Prop
  /-- A name that is not bound there is bound, without a value. -/
  | create (hat : s.at? place = none) (hname : isIdentifier place.name = true) :
      Write place s (s.put place .unset)
  /-- A binding that is not read-only gets another value. -/
  | update {b : Binding} {value : Value} (generation : Nat) (hat : s.at? place = some b)
      (hreadonly : b.attributes.readonly = false) (hvalue : b.value.Becomes value)
      (htarget : place.scope ≠ .outermost → b.value.KeepsTarget value) :
      Write place s (s.put place ⟨value, b.attributes, generation⟩)

/-- A sequence of writes, each of them to the nearest binding of a name or to one in the scope. -/
def Writes (scope : Scope) : Store → Store → Prop :=
  Relation.ReflTransGen fun s s' =>
    ∃ place : Place, (place.scope = .nearest ∨ place.scope = scope) ∧ Write place s s'

namespace Writes

instance : IsPreorder Store (Writes scope) :=
  inferInstanceAs (IsPreorder Store (Relation.ReflTransGen _))

theorem trans {s'' : Store} (h : Writes scope s s') (h' : Writes scope s' s'') :
    Writes scope s s'' :=
  Relation.ReflTransGen.trans h h'

theorem of_write (h : Write place s s') (hscope : place.scope = .nearest ∨ place.scope = scope) :
    Writes scope s s' :=
  .single ⟨place, hscope, h⟩

theorem of_nearest (h : Writes .nearest s s') : Writes scope s s' :=
  Relation.ReflTransGen.mono
    (fun _ _ ⟨place, hscope, hwrite⟩ => ⟨place, .inl (hscope.elim id id), hwrite⟩) _ _ h

end Writes

/-! ### Places that are ready -/

/-- A write to the nearest binding of a name moves no place. -/
theorem Write.level (h : Write ⟨.nearest, name⟩ s s') (scope : Scope) (other : String) :
    s'.level scope other = s.level scope other := by
  cases h <;> exact level_bind_nearest ..

/-- A write leaves the bindings that are there, with their attributes. -/
theorem Write.exists_slot? (h : Write place s s') {level : Nat} {other : String} {b : Binding}
    (hslot : s.slot? level other = some b) :
    ∃ b', s'.slot? level other = some b' ∧
      b.Rewritten (level ≠ 0 ∨ place.scope ≠ .outermost) b' := by
  have hat : s.at? place = s.slot? (s.level place.scope place.name) place.name :=
    find?_eq_slot? ..
  by_cases heq : level = s.level place.scope place.name ∧ other = place.name
  · have hput (b' : Binding) : (s.put place b').slot? level other = some b' := by
      rw [put, slot?_bind, if_pos heq]
    have hscope (h : level ≠ 0 ∨ place.scope ≠ .outermost) : place.scope ≠ .outermost := by
      intro houtermost
      rw [houtermost] at heq
      exact h.elim (fun hne => hne heq.1) fun hne => hne houtermost
    rw [heq.1, heq.2, ← hat] at hslot
    cases h with
    | create hnone =>
        rw [hnone] at hslot
        cases hslot
    | update generation hb hreadonly hvalue htarget =>
        rw [hb] at hslot
        cases hslot
        exact ⟨_, hput _, rfl, hvalue, fun h => htarget (hscope h)⟩
  · have hput (b' : Binding) : (s.put place b').slot? level other = some b := by
      rw [put, slot?_bind, if_neg heq, hslot]
    cases h <;> exact ⟨b, hput _, .refl b⟩

/-- **Writes leave every binding in its frame**, with its attributes and with a value that the one
there can become; a reference keeps its target outside the outermost frame, and everywhere if this
is not the scope of the writes. -/
theorem Writes.exists_slot? (h : Writes scope s s') {level : Nat} {other : String} {b : Binding}
    (hslot : s.slot? level other = some b) :
    ∃ b', s'.slot? level other = some b' ∧ b.Rewritten (level ≠ 0 ∨ scope ≠ .outermost) b' := by
  induction h with
  | refl => exact ⟨b, hslot, .refl b⟩
  | tail _ hstep ih =>
      obtain ⟨place, hplace, hwrite⟩ := hstep
      obtain ⟨b₁, hslot₁, hrewritten₁⟩ := ih
      obtain ⟨b₂, hslot₂, hrewritten₂⟩ := hwrite.exists_slot? hslot₁
      refine ⟨b₂, hslot₂, hrewritten₁.trans (hrewritten₂.mono (Or.imp_right fun hne => ?_))⟩
      rcases hplace with hnearest | hscope
      · rw [hnearest]
        decide
      · rw [hscope]
        exact hne

theorem Writes.level (h : Writes .nearest s s') (scope : Scope) (other : String) :
    s'.level scope other = s.level scope other := by
  induction h with
  | refl => rfl
  | tail _ hstep ih =>
      obtain ⟨⟨stepScope, name⟩, hscope, hwrite⟩ := hstep
      obtain rfl : stepScope = .nearest := hscope.elim id id
      exact (hwrite.level scope other).trans ih

/-- A binding that is found at a place is found there after writes to the nearest bindings of names,
with its attributes. -/
theorem Writes.exists_at? (h : Writes .nearest s s') {b : Binding} (hat : s.at? place = some b) :
    ∃ b', s'.at? place = some b' ∧ b'.attributes = b.attributes ∧ b.value.Becomes b'.value := by
  rw [at?, find?_eq_slot?] at hat
  obtain ⟨b', hslot, hrewritten⟩ := h.exists_slot? hat
  refine ⟨b', ?_, hrewritten.attributes, hrewritten.value⟩
  rw [at?, find?_eq_slot?, h.level]
  exact hslot

/-- What a name is bound to is rewritten by writes to the nearest bindings of names, an unbound name
counting as bound to nothing. -/
theorem Writes.rewritten (h : Writes .nearest s s') (other : String) :
    ((s.lookup other).getD .unset).Rewritten True ((s'.lookup other).getD .unset) := by
  induction h with
  | refl => exact .refl _
  | @tail between last hwrites hstep ih =>
      obtain ⟨⟨scope, name⟩, hscope, hwrite⟩ := hstep
      obtain rfl : scope = .nearest := hscope.elim id id
      refine ih.trans ?_
      have hput (b : Binding) : (between.put ⟨.nearest, name⟩ b).lookup other =
          if other = name then some b else between.lookup other :=
        (Sets.bind between .nearest name b).lookup other
      cases hwrite with
      | create hat hname =>
          rw [hput]
          split_ifs with heq
          · have hnone : between.lookup other = none := heq ▸ hat
            rw [hnone]
            exact .refl _
          · exact .refl _
      | @update b value generation hat hreadonly hvalue htarget =>
          rw [hput]
          split_ifs with heq
          · have hsome : between.lookup other = some b := heq ▸ hat
            rw [hsome]
            exact ⟨rfl, hvalue, fun _ => htarget Scope.noConfusion⟩
          · exact .refl _

/-! ### Ready places and assignments -/

/-- A write goes to the nearest binding of a name or to the scope that it is given. -/
theorem scope_of_place (h : s.place name scope = .ok place) :
    place.scope = .nearest ∨ place.scope = scope := by
  obtain ⟨⟨final, found⟩, -, rfl⟩ := exists_of_map_eq_ok h
  dsimp only
  split_ifs
  · exact .inl rfl
  · exact .inr rfl

/-- A reference that a write comes to has no target, unless the outermost frame is meant. -/
theorem target_of_place {b : Binding} {target : String} (hplace : s.place name scope = .ok place)
    (hscope : place.scope ≠ .outermost) (hat : s.at? place = some b)
    (hvalue : b.value = .reference target) : target = "" := by
  obtain ⟨⟨final, found⟩, hresolve, rfl⟩ := exists_of_map_eq_ok hplace
  have hlookup : s.lookup final = some b := by
    rw [at?] at hat
    dsimp only at hat hscope
    split_ifs at hat hscope
    · exact hat
    · cases scope with
      | nearest => exact hat
      | current => exact lookup_of_find?_current hat
      | outermost => exact absurd rfl hscope
  -- A chain does not end at a name with a link.
  have hlink := (resolve_spec hresolve).1
  rw [link?, hlookup, Option.map_some, hvalue] at hlink
  dsimp only at hlink
  split_ifs at hlink with htarget
  exact htarget

theorem prepare_writes (h : s.prepare name scope = .ok (place, s')) : Writes scope s s' := by
  obtain ⟨hplace, ⟨b, -, -, rfl⟩ | ⟨hnone, hname, rfl⟩⟩ := prepare_spec h
  · exact refl s'
  · exact .of_write (.create hnone hname) (scope_of_place hplace)

theorem assigned_becomes {old value : Value} {text : String} {append : Bool}
    (h : assigned old text append = .ok value) : old.Becomes value := by
  unfold assigned at h
  cases old with
  | unset =>
      cases h
      exact .scalar rfl _
  | scalar old =>
      cases h
      exact .scalar rfl _
  | indexed elements =>
      cases h
      exact .indexed (.inr rfl) _
  | associative elements =>
      cases h
      exact .associative _ _
  | reference target =>
      dsimp only at h
      split_ifs at h with hname
      cases h
      exact .reference _ hname

theorem assign_writes {text : String} {append : Bool}
    (h : s.assign name text scope append = .ok (place, s')) : Writes scope s s' := by
  obtain ⟨prepared, b, value, hprepare, hat, hreadonly, hvalue, rfl⟩ := assign_spec h
  obtain ⟨hplace, hprepared⟩ := prepare_spec hprepare
  have htarget (hscope : place.scope ≠ .outermost) : b.value.KeepsTarget value := by
    intro target hne hreference
    rcases hprepared with ⟨-, -, -, rfl⟩ | ⟨-, -, rfl⟩
    · exact absurd (target_of_place hplace hscope hat hreference) hne
    · -- What was just bound is no reference.
      rw [at?_put] at hat
      cases hat
      cases hreference
  exact (prepare_writes hprepare).trans
    (.of_write (.update b.generation hat hreadonly (assigned_becomes hvalue) htarget)
      (scope_of_place hplace))

end Store

end ShellExpansion
