import ShellExpansion.Proofs.Store.Writes
import ShellExpansion.Store.Declare

/-! # Changes

Besides writing, commands declare variables, end references, remove variables and replace the
positional parameters.  Everything that a command does to a store, also when it is refused, is a
sequence of such changes, of one binding each (`declare_changes`, `setReference_changes`,
`erase_changes`).  What may be changed is kept track of (`Rights`): the names by which references
may be ended, as this is the one change that does not ask whether a variable is read-only; whether
references may be made, as nothing that makes them assigns to them; and the frame that assignments
may be meant for. -/

namespace ShellExpansion.Store

variable {s s' : Store} {place : Place} {scope : Scope} {name : String} {b : Binding}
  {rights : Rights}

/-- What changes may do. -/
structure Rights where
  /-- The names by which references may be ended. -/
  ended : List String
  /-- The frame that assignments may be meant for; others go to the nearest bindings of names. -/
  scope : Scope
  /-- Variables may be made references, and references pointed elsewhere; nothing is assigned. -/
  pointing : Bool

/-- One change of a store, all frames staying. -/
inductive Change (rights : Rights) (s : Store) : Store → Prop
  | write {place : Place} {s' : Store} (hpointing : rights.pointing = false)
      (hscope : place.scope = .nearest ∨ place.scope = rights.scope) (h : Write place s s') :
      Change rights s s'
  /-- A variable is declared in a frame that did not bind it. -/
  | create {place : Place} (inherit : Bool) (hat : s.at? place = none)
      (hname : isIdentifier place.name = true) :
      Change rights s (s.put place (s.created place.name inherit))
  /-- A variable is declared again: it may get other attributes, but does not lose the read-only
  one, and is converted only if it is not read-only. -/
  | redeclare {place : Place} {b : Binding} {value : Value} {attributes : Attributes}
      (hat : s.at? place = some b)
      (hvalue : value = b.value ∨ b.attributes.readonly = false ∧
        ∃ kind, converted place.name b.value kind = .ok value ∧
          (kind = .reference → rights.pointing = true))
      (hattributes : b.attributes.readonly = true → attributes.readonly = true) :
      Change rights s (s.put place ⟨value, attributes, b.generation⟩)
  /-- A reference gets another target, which is not its own name. -/
  | point {place : Place} {b : Binding} {old target : String} (hpointing : rights.pointing = true)
      (hat : s.at? place = some b) (hreadonly : b.attributes.readonly = false)
      (hvalue : b.value = .reference old) (htarget : isIdentifier target = true)
      (hne : target ≠ place.name) :
      Change rights s (s.put place (b.withValue (.reference target)))
  | dropReference {name : String} (h : name ∈ rights.ended) :
      Change rights s (s.dropReference name)
  /-- The nearest binding of a name is removed. -/
  | remove {name : String} (hreadonly : ∀ b ∈ s.lookup name, b.attributes.readonly = false) :
      Change rights s (s.unbind name)
  | setPositional (args : List String) : Change rights s (s.setPositional args)

/-- A sequence of changes. -/
def Changes (rights : Rights) : Store → Store → Prop := Relation.ReflTransGen (Change rights)

namespace Changes

instance : IsPreorder Store (Changes rights) :=
  inferInstanceAs (IsPreorder Store (Relation.ReflTransGen _))

theorem trans {s'' : Store} (h : Changes rights s s') (h' : Changes rights s' s'') :
    Changes rights s s'' :=
  Relation.ReflTransGen.trans h h'

theorem of_change (h : Change rights s s') : Changes rights s s' := .single h

theorem of_writes (hpointing : rights.pointing = false) (h : Writes rights.scope s s') :
    Changes rights s s' :=
  Relation.ReflTransGen.mono
    (fun _ _ ⟨_, hscope, hwrite⟩ => .write hpointing hscope hwrite) _ _ h

end Changes

/-! ### Declarations -/

theorem redeclared_readonly {attributes : Attributes} {request : Declaration}
    (hremove : request.remove.contains .readonly = false) (h : attributes.readonly = true) :
    (redeclared attributes request).readonly = true := by
  have hset (a : Attribute) (state : Bool) (attributes : Attributes)
      (hstate : a = .readonly → state = true) (h : attributes.readonly = true) :
      (attributes.set state a).readonly = true := by
    cases a <;> simp [Attributes.set, h, hstate]
  unfold redeclared
  have hadd := List.foldlRecOn request.add (fun attributes a => Attributes.set attributes true a)
    (motive := fun attributes => attributes.readonly = true) h
    fun attributes h a _ => hset a true attributes (fun _ => rfl) h
  refine List.foldlRecOn request.remove (fun attributes a => Attributes.set attributes false a)
    (motive := fun attributes => attributes.readonly = true) hadd
    fun attributes h a ha => hset a false attributes (fun heq => ?_) h
  rw [heq] at ha
  simp_all

theorem converted_kind? {value new : Value} {kind : Attribute}
    (h : converted name value kind = .ok new) : new.kind? = some kind := by
  unfold converted at h
  dsimp only at h
  -- The conditions are those on a text that becomes a reference.
  split at h <;> try split_ifs at h
  all_goals cases h <;> rfl

/-- A conversion makes a reference of a text that names another variable, or of no text. -/
theorem reference_of_converted {value : Value} {target : String} {kind : Attribute}
    (h : converted name value kind = .ok (.reference target)) : value = .reference target ∨
      kind = .reference ∧ (target = "" ∨ isIdentifier target = true ∧ target ≠ name) := by
  obtain rfl : kind = .reference := Option.some.inj (converted_kind? h).symm
  cases value with
  | reference old =>
      cases h
      exact .inl rfl
  | unset =>
      cases h
      exact .inr ⟨rfl, .inl rfl⟩
  | scalar text =>
      unfold converted at h
      dsimp only at h
      split_ifs at h with hname hself
      cases h
      refine .inr ⟨rfl, or_iff_not_imp_left.mpr fun hne => ⟨?_, hself⟩⟩
      simpa [hne] using hname
  | _ => cases h

/-- A declaration of a bound variable changes this binding alone; the value is then of the kind that
was asked for. -/
theorem redeclare_spec {request : Declaration}
    (hpointing : request.kind = some .reference → rights.pointing = true)
    (hat : s.at? place = some b) (h : s.redeclare place request = .ok s') :
    Change rights s s' ∧
      ∃ b', s'.at? place = some b' ∧ ∀ kind ∈ request.kind, b'.value.kind? = some kind := by
  unfold redeclare at h
  rw [get_of_at? hat] at h
  dsimp only at h
  split at h
  · cases h
  rename_i hremove
  have hattributes (hreadonly : b.attributes.readonly = true) :
      (redeclared b.attributes request).readonly = true := by
    refine redeclared_readonly (Bool.eq_false_iff.mpr fun hcontains => hremove ?_) hreadonly
    rw [hcontains, hreadonly]
    rfl
  cases hkind : request.kind with
  | none =>
      rw [hkind] at h
      cases h
      exact ⟨.redeclare hat (.inl rfl) hattributes, _, at?_put .., by simp⟩
  | some kind =>
      rw [hkind] at h
      dsimp only at h
      split_ifs at h with hsame hreadonly
      · cases h
        exact ⟨.redeclare hat (.inl rfl) hattributes, _, at?_put .., by simpa using hsame⟩
      · cases hvalue : converted place.name b.value kind with
        | error fault =>
            rw [hvalue] at h
            cases h
        | ok value =>
            rw [hvalue] at h
            cases h
            have hwritable := Bool.eq_false_iff.mpr hreadonly
            have hkinds : kind = .reference → rights.pointing = true :=
              fun heq => hpointing (hkind.trans (congrArg some heq))
            refine ⟨.redeclare hat (.inr ⟨hwritable, kind, hvalue, hkinds⟩) hattributes, _,
              at?_put .., ?_⟩
            simpa using converted_kind? hvalue

/-- The place that a declaration changes is bound. -/
theorem exists_at?_of_declaredPlace {request : Declaration}
    (hfind : s.find? request.scope name = some b)
    (h : s.declaredPlace name b request = .ok place) : ∃ b', s.at? place = some b' := by
  unfold declaredPlace at h
  split at h
  · obtain ⟨⟨target, found⟩, hresolve, rfl⟩ := exists_of_map_eq_ok h
    cases found with
    | none => exact ⟨b, hfind⟩
    | some b' => exact ⟨b', (resolve_spec hresolve).2.symm⟩
  · cases h
    exact ⟨b, hfind⟩

/-- What is known when a declaration ends: the store was changed, and the variable that it declared,
if it was not refused, is of the kind that was asked for. -/
def Declared (rights : Rights) (s : Store) (request : Declaration)
    (result : Except Fault Place × Store) : Prop :=
  Changes rights s result.2 ∧ ∀ place, result.1 = .ok place → ∃ b, result.2.at? place = some b ∧
    ∀ kind ∈ request.kind, b.value.kind? = some kind

theorem Declared.of_error {request : Declaration} (hchanges : Changes rights s s')
    (fault : Fault) : Declared rights s request (.error fault, s') :=
  ⟨hchanges, fun _ heq => nomatch heq⟩

theorem Declared.of_redeclare {request : Declaration} {s'' : Store}
    (hpointing : request.kind = some .reference → rights.pointing = true)
    (hchanges : Changes rights s s') (hat : s'.at? place = some b)
    (h : s'.redeclare place request = .ok s'') : Declared rights s request (.ok place, s'') := by
  obtain ⟨hchange, hat'⟩ := redeclare_spec hpointing hat h
  refine ⟨hchanges.trans (.of_change hchange), fun _ heq => ?_⟩
  cases heq
  exact hat'

/-- **A declaration makes changes**, also when it is refused. -/
theorem declare_declared (s : Store) (name : String) (request : Declaration)
    (hpointing : request.kind = some .reference → rights.pointing = true) :
    Declared rights s request (s.declare name request) := by
  unfold declare
  split
  · exact .of_error (refl s) _
  · next hname =>
    dsimp only
    cases hfind : s.find? request.scope name with
    | none =>
        have hcreate :
            Change rights s (s.put ⟨request.scope, name⟩ (s.created name request.inherit)) :=
          .create request.inherit hfind (by simpa using hname)
        dsimp only
        split
        · next h => exact .of_redeclare hpointing (.of_change hcreate) (at?_put ..) h
        · exact .of_error (.of_change hcreate) _
    | some b =>
        dsimp only
        cases hplace : s.declaredPlace name b request with
        | error e => exact .of_error (refl s) _
        | ok place =>
            obtain ⟨b', hat⟩ := exists_at?_of_declaredPlace hfind hplace
            dsimp only
            split
            · next h => exact .of_redeclare hpointing (refl s) hat h
            · exact .of_error (refl s) _

theorem declare_changes (s : Store) (name : String) (request : Declaration)
    (hpointing : request.kind = some .reference → rights.pointing = true) :
    Changes rights s (s.declare name request).2 :=
  (declare_declared s name request hpointing).1

/-- Only names of variables are declared. -/
theorem isIdentifier_of_declare {request : Declaration}
    (h : (s.declare name request).1 = .ok place) : isIdentifier name = true := by
  unfold declare at h
  split at h
  · cases h
  · next hname => simpa using hname

/-- A declaration that does not go through references changes the variable of its name. -/
theorem place_of_declare {request : Declaration}
    (hplace : ∀ b, s.find? request.scope name = some b →
      s.declaredPlace name b request = .ok ⟨request.scope, name⟩)
    (h : (s.declare name request).1 = .ok place) : place = ⟨request.scope, name⟩ := by
  unfold declare at h
  split at h
  · cases h
  · cases hfind : s.find? request.scope name with
    | none =>
        rw [hfind] at h
        dsimp only at h
        split at h
        · cases h
          rfl
        · cases h
    | some b =>
        rw [hfind] at h
        dsimp only at h
        rw [hplace b hfind] at h
        dsimp only at h
        split at h
        · cases h
          rfl
        · cases h

theorem declaredPlace_of_reference {request : Declaration}
    (hkind : request.kind = some .reference) (s : Store) (name : String) (b : Binding) :
    s.declaredPlace name b request = .ok ⟨request.scope, name⟩ := by
  simp [declaredPlace, hkind]

theorem setReference_changes (hpointing : rights.pointing = true) (s : Store)
    (name target : String) (scope : Scope) :
    Changes rights s (s.setReference name target scope).2 := by
  obtain ⟨hchanges, hdeclared⟩ :=
    declare_declared s name ⟨some .reference, [], [], scope, false⟩ fun _ => hpointing
  unfold setReference
  cases h : s.declare name ⟨some .reference, [], [], scope, false⟩ with
  | mk result s' =>
      rw [h] at hchanges hdeclared
      cases result with
      | error fault => exact hchanges
      | ok place =>
          obtain ⟨b, hat, hkind⟩ := hdeclared place rfl
          have hplace : place = ⟨scope, name⟩ :=
            place_of_declare (fun b _ => declaredPlace_of_reference rfl s name b) (by rw [h])
          dsimp only
          rw [putValue, get_of_at? hat]
          split_ifs with hreadonly hname hself
          · exact hchanges
          · exact hchanges
          · exact hchanges
          · cases hvalue : b.value with
            | reference old =>
                have hne : target ≠ place.name := by
                  rw [hplace]
                  exact hself
                exact hchanges.trans (.of_change (.point hpointing hat (by simpa using hreadonly)
                  hvalue (by simpa using hname) hne))
            | _ =>
                -- The declaration made it a reference.
                have hfalse := hkind .reference rfl
                rw [hvalue] at hfalse
                cases hfalse

/-! ### Removing variables -/

theorem lookup_unbind_of_ne {other : String} (hne : other ≠ name) :
    (s.unbind name).lookup other = s.lookup other := by
  have hslot (level : Nat) : (s.unbind name).slot? level other = s.slot? level other := by
    rw [slot?_unbind, if_neg fun h => hne h.2]
  have hlevel : (s.unbind name).level .nearest other = s.level .nearest other :=
    level_congr (depth_unbind ..) (fun level _ => by rw [hslot]) .nearest
  rw [lookup_eq_slot?, lookup_eq_slot?, hlevel, hslot]

theorem chain_succ (s : Store) (steps : Nat) (name : String) :
    s.chain (steps + 1) name =
      match s.lookup name with
      | none => []
      | some b => (name, b) ::
        match s.link? name with
        | none => []
        | some target => s.chain steps target := by
  rw [chain]
  unfold link?
  cases hlookup : s.lookup name with
  | none => rfl
  | some b =>
      obtain ⟨value, attributes, generation⟩ := b
      cases value with
      | reference target => by_cases htarget : target = "" <;> simp [htarget]
      | _ => rfl

theorem lookup_of_mem_chain {steps : Nat} {link : String × Binding}
    (h : link ∈ s.chain steps name) : s.lookup link.1 = some link.2 := by
  induction steps generalizing name with
  | zero => cases h
  | succ steps ih =>
      rw [chain_succ] at h
      cases hlookup : s.lookup name with
      | none =>
          rw [hlookup] at h
          cases h
      | some b =>
          rw [hlookup] at h
          rcases List.mem_cons.mp h with rfl | h
          · exact hlookup
          · cases hlink : s.link? name with
            | none =>
                rw [hlink] at h
                cases h
            | some target =>
                rw [hlink] at h
                exact ih h

/-- A chain that was followed to its end has no name twice, and none of those behind its start. -/
theorem nodup_chain {first : String} {steps : Nat} {visited : List String}
    {result : String × Option Binding}
    (h : s.resolveFrom first steps visited name = .ok result) (hname : name ∉ visited) :
    ((s.chain steps name).map Prod.fst).Nodup ∧
      ∀ link ∈ (s.chain steps name).map Prod.fst, link ∉ visited := by
  induction steps generalizing visited name with
  | zero => cases h
  | succ steps ih =>
      rw [resolveFrom_succ] at h
      rw [chain_succ]
      cases hlookup : s.lookup name with
      | none => simp
      | some b =>
          cases hlink : s.link? name with
          | none => simpa using hname
          | some target =>
              rw [hlink] at h
              dsimp only at h
              split_ifs at h with hvisited
              -- The rest of the chain was followed with this name among those behind it.
              obtain ⟨hnodup, hfresh⟩ := ih h hvisited
              have hhead : name ∉ (s.chain steps target).map Prod.fst :=
                fun hmem => hfresh name hmem List.mem_cons_self
              refine ⟨List.nodup_cons.mpr ⟨hhead, hnodup⟩, fun link hmem => ?_⟩
              rcases List.mem_cons.mp hmem with rfl | hmem
              · exact hname
              · exact fun hlink => hfresh link hmem (List.mem_cons_of_mem _ hlink)

theorem foldl_unbind_changes {links : List (String × Binding)} (hnodup : (links.map Prod.fst).Nodup)
    (hreadonly : ∀ link ∈ links, ∀ b ∈ s.lookup link.1, b.attributes.readonly = false) :
    Changes rights s (links.foldl (fun s link => s.unbind link.1) s) := by
  induction links generalizing s with
  | nil => exact refl s
  | cons link rest ih =>
      obtain ⟨hhead, hrest⟩ := List.nodup_cons.mp hnodup
      have hremove : Change rights s (s.unbind link.1) :=
        .remove (hreadonly link List.mem_cons_self)
      refine (Changes.of_change hremove).trans (ih hrest fun other hother b hb => ?_)
      -- What is removed next was found before the removals began.
      have hne : other.1 ≠ link.1 := fun heq => hhead (heq ▸ List.mem_map_of_mem hother)
      rw [lookup_unbind_of_ne hne] at hb
      exact hreadonly other (List.mem_cons_of_mem _ hother) b hb

/-- **A removal makes changes**: none of the bindings that it removes is read-only. -/
theorem erase_changes {keepTarget found : Bool} (h : s.erase name keepTarget = .ok (found, s')) :
    Changes rights s s' := by
  unfold erase at h
  cases hlookup : s.lookup name with
  | none =>
      rw [hlookup] at h
      cases h
      exact refl s
  | some b =>
      rw [hlookup] at h
      dsimp only at h
      split at h
      · cases h
      · next hreadonly =>
        split at h
        · cases hresolve : s.resolve name with
          | error e =>
              rw [hresolve] at h
              cases h
          | ok result =>
              rw [hresolve] at h
              dsimp only at h
              cases hfind : (s.chain s.limits.referenceDepth.toNat name).find?
                  (·.2.attributes.readonly) with
              | some link =>
                  rw [hfind] at h
                  cases h
              | none =>
                  rw [hfind] at h
                  cases h
                  refine foldl_unbind_changes (nodup_chain hresolve List.not_mem_nil).1
                    fun link hlink b' hb' => ?_
                  rw [lookup_of_mem_chain hlink] at hb'
                  cases hb'
                  simpa using List.find?_eq_none.mp hfind link hlink
        · cases h
          refine .of_change (.remove fun b' hb' => ?_)
          rw [hlookup] at hb'
          cases hb'
          simpa using hreadonly

end ShellExpansion.Store
