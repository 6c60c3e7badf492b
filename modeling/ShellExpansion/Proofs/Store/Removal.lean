import ShellExpansion.Proofs.Store.Atomic
import ShellExpansion.Proofs.Store.Chains

/-! # What a removal takes away

A removal takes away the innermost bindings of some names (`Store.Without`): what is bound on a
level afterwards is what was bound there before, apart from those names on the level of their
innermost binding.  Names are removed one after the other, but each of them on the level that it had
before the first one was gone (`without_foldl`), since outer bindings that come to light are of
names that are removed already.  The names are those along the references from the one that is asked
for (`erase_removes_chain`). -/

namespace ShellExpansion.Store

variable {s s' s'' : Store} {name final : String} {gone gone' : String → Prop}

/-- The innermost bindings of some names are gone from the frames of a store, and all else is as it
was and where it was. -/
structure Without (s : Store) (gone : String → Prop) (s' : Store) : Prop where
  limits : s'.limits = s.limits
  header : ∀ level, (s'.frame? level).map Frame.header = (s.frame? level).map Frame.header
  slot? : ∀ level other b, s'.slot? level other = some b ↔
    s.slot? level other = some b ∧ ¬ (gone other ∧ s.level .nearest other = level)
  order : ∀ level, ∀ frame ∈ s.frame? level, ∀ frame' ∈ s'.frame? level,
    frame'.bindings.entries.Sublist frame.bindings.entries

/-- References lead from a name to another one, or to the name itself if there are none. -/
def Leads (s : Store) (name other : String) : Prop := ∃ count, s.follow name count = some other

/-- The innermost binding of the name is read-only. -/
def IsReadOnly (s : Store) (name : String) : Prop :=
  ∃ b ∈ s.lookup name, b.attributes.readonly = true

/-! ### Names that are removed -/

theorem isSome_lookup_of_slot? {level : Nat} {b : Binding} (h : s.slot? level name = some b) :
    (s.lookup name).isSome = true := by
  by_contra hnone
  rw [Option.not_isSome_iff_eq_none] at hnone
  have hlowest := level_of_lookup_eq_none hnone
  rw [lookup_eq_slot?, hlowest] at hnone
  obtain rfl | hpos := Nat.eq_zero_or_pos level
  · rw [hnone] at h
    cases h
  · have hdepth : level ≤ s.depth := by
      by_contra hdepth
      rw [slot?, frame?_of_lt (by omega)] at h
      cases h
    exact (level_nearest_eq_iff.mp hlowest).2.2 hpos hdepth (Option.isSome_of_eq_some h)

namespace Without

theorem refl (s : Store) : Without s (fun _ => False) s where
  limits := rfl
  header _ := rfl
  slot? level other b := by simp
  order level frame hframe frame' hframe' := by
    cases hframe.symm.trans hframe'
    exact .refl _

/-- Of names that are not bound nothing can be gone. -/
theorem congr (h : Without s gone s')
    (hgone : ∀ other, (s.lookup other).isSome = true → (gone other ↔ gone' other)) :
    Without s gone' s' where
  limits := h.limits
  header := h.header
  slot? level other b := by
    rw [h.slot?]
    refine and_congr_right fun hslot => ?_
    rw [hgone other (isSome_lookup_of_slot? hslot)]
  order := h.order

theorem unbind (s : Store) (name : String) : Without s (· = name) (s.unbind name) where
  limits := limits_unbind ..
  header level := by
    rw [frame?_unbind]
    split_ifs
    · rw [Option.map_map]
      rfl
    · rfl
  slot? level other b := by
    rw [slot?_unbind]
    by_cases hname : other = name
    · subst hname
      simp only [and_true, true_and]
      split_ifs with hlevel
      · simp [hlevel]
      · simp [Ne.symm hlevel]
    · simp [hname]
  order level frame hframe frame' hframe' := by
    rw [frame?_unbind, Option.mem_def.mp hframe] at hframe'
    split_ifs at hframe'
    · cases hframe'
      exact List.filter_sublist
    · cases hframe'
      exact .refl _

/-- Removals add up, if the second one does not uncover any of its names. -/
theorem trans (h : Without s gone s') (h' : Without s' gone' s'')
    (hlevel : ∀ other, gone' other → s'.level .nearest other = s.level .nearest other) :
    Without s (fun other => gone other ∨ gone' other) s'' where
  limits := h'.limits.trans h.limits
  header level := (h'.header level).trans (h.header level)
  slot? level other b := by
    have hsame : gone' other ∧ s'.level .nearest other = level ↔
        gone' other ∧ s.level .nearest other = level :=
      and_congr_right fun hother => by rw [hlevel other hother]
    rw [h'.slot?, h.slot?, hsame, or_and_right, not_or, and_assoc]
  order level frame hframe frame'' hframe'' := by
    have hheader := h'.header level
    rw [Option.mem_def.mp hframe'', Option.map_some] at hheader
    obtain ⟨frame', hframe', -⟩ := Option.map_eq_some_iff.mp hheader.symm
    exact (h'.order level frame' hframe' frame'' hframe'').trans
      (h.order level frame hframe frame' hframe')

end Without

/-- **Each name loses the binding that it had before the removals began.** -/
theorem without_foldl {names : List String} (hnodup : names.Nodup) :
    Without s (· ∈ names) (names.foldl unbind s) := by
  induction names generalizing s with
  | nil => exact (Without.refl s).congr fun other _ => by simp
  | cons name rest ih =>
      obtain ⟨hhead, hrest⟩ := List.nodup_cons.mp hnodup
      refine ((Without.unbind s name).trans (ih hrest) fun other hother => ?_).congr
        fun other _ => List.mem_cons.symm
      exact level_unbind_of_ne fun heq => hhead (heq ▸ hother)

/-! ### The names of a chain -/

theorem link?_of_lookup_eq_none (h : s.lookup name = none) : s.link? name = none := by
  unfold link?
  rw [h]
  rfl

/-- The links of a chain are the bound names along references, in their order. -/
theorem getElem?_chain (s : Store) (steps : Nat) (name : String) (i : Nat) :
    (s.chain steps name)[i]? =
      if i < steps then (s.follow name i).bind fun link => (s.lookup link).map (link, ·)
      else none := by
  induction steps generalizing name i with
  | zero => rfl
  | succ steps ih =>
      rw [chain_succ]
      cases hlookup : s.lookup name with
      | none =>
          cases i with
          | zero => simp [follow, hlookup]
          | succ i => simp [follow_succ, link?_of_lookup_eq_none hlookup]
      | some b =>
          cases i with
          | zero => simp [follow, hlookup]
          | succ i =>
              rw [follow_succ, List.getElem?_cons_succ]
              cases s.link? name with
              | none => simp
              | some target => simpa using ih target i

section ends

variable {count steps : Nat} (hends : s.Ends name count final) (hsteps : count < steps)

include hends hsteps

/-- A chain with an end has all of its bound names among so many. -/
theorem mem_chain_iff {link : String × Binding} : link ∈ s.chain steps name ↔
    s.Leads name link.1 ∧ s.lookup link.1 = some link.2 := by
  rw [List.mem_iff_getElem?]
  constructor
  · rintro ⟨i, hi⟩
    rw [getElem?_chain] at hi
    split_ifs at hi
    obtain ⟨other, hother, hlink⟩ := Option.bind_eq_some_iff.mp hi
    obtain ⟨b, hb, rfl⟩ := Option.map_eq_some_iff.mp hlink
    exact ⟨⟨i, hother⟩, hb⟩
  · rintro ⟨⟨i, hother⟩, hb⟩
    have hi : i ≤ count := by
      by_contra hlt
      rw [hends.follow_eq_none (Nat.lt_of_not_le hlt)] at hother
      cases hother
    exact ⟨i, by rw [getElem?_chain, if_pos (by omega), hother, Option.bind_some, hb]; rfl⟩

theorem isReadOnly_iff_mem_chain :
    (∃ other, s.Leads name other ∧ s.IsReadOnly other) ↔
      ∃ link ∈ s.chain steps name, link.2.attributes.readonly = true := by
  constructor
  · rintro ⟨other, hother, b, hb, hreadonly⟩
    exact ⟨(other, b), (mem_chain_iff hends hsteps).mpr ⟨hother, hb⟩, hreadonly⟩
  · rintro ⟨link, hlink, hreadonly⟩
    obtain ⟨hother, hb⟩ := (mem_chain_iff hends hsteps).mp hlink
    exact ⟨link.1, hother, link.2, hb, hreadonly⟩

/-- The names of a chain are removed, each of them with its innermost binding. -/
theorem without_of_eraseLinks {found : Bool}
    (h : s.eraseLinks (s.chain steps name) = .ok (found, s')) :
    s.Without (s.Leads name) s' ∧ found = (s.lookup name).isSome := by
  have hnodup : ((s.chain steps name).map Prod.fst).Nodup :=
    (nodup_chain (hends.resolveFrom name hsteps) List.not_mem_nil).1
  unfold eraseLinks at h
  split at h
  · cases h
  · cases h
    refine ⟨?_, ?_⟩
    · rw [← List.foldl_map]
      refine (without_foldl hnodup).congr fun other hbound => ?_
      obtain ⟨b, hb⟩ := Option.isSome_iff_exists.mp hbound
      rw [List.mem_map]
      constructor
      · rintro ⟨link, hlink, rfl⟩
        exact ((mem_chain_iff hends hsteps).mp hlink).1
      · intro hother
        exact ⟨(other, b), (mem_chain_iff hends hsteps).mpr ⟨hother, hb⟩, rfl⟩
    · obtain ⟨more, rfl⟩ := Nat.exists_eq_add_of_lt hsteps
      rw [chain_succ]
      cases s.lookup name <;> rfl

end ends

/-! ### Removals of chains -/

/-- A removal that is given a chain with an end removes its links. -/
theorem erase_of_resolve {result : String × Option Binding} (h : s.resolve name = .ok result) :
    s.erase name false = s.eraseLinks (s.chain s.limits.referenceDepth.toNat name) := by
  obtain ⟨-, -, hpos⟩ := resolveFrom_spec h
  obtain ⟨more, hmore⟩ := Nat.exists_eq_add_of_lt hpos
  cases hlookup : s.lookup name with
  | none =>
      rw [hmore, chain_succ, erase, hlookup]
      rfl
  | some b =>
      cases hreadonly : b.attributes.readonly with
      | true =>
          rw [hmore, chain_succ, erase, eraseLinks, hlookup]
          dsimp only
          rw [if_pos hreadonly, List.find?_cons, hreadonly]
      | false =>
          cases hreference : b.value.isReference with
          | true => exact erase_eq_eraseLinks hlookup hreadonly hreference h
          | false =>
              rw [hmore, chain_succ, erase, eraseLinks, hlookup, link?_eq_none hlookup hreference]
              simp [hreadonly, hreference]

/-- What is removed is a chain with an end. -/
theorem exists_of_erase {found : Bool} (h : s.erase name false = .ok (found, s')) :
    ∃ count final steps, s.Ends name count final ∧ count < steps ∧
      s.eraseLinks (s.chain steps name) = .ok (found, s') := by
  cases hresolve : s.resolve name with
  | ok result =>
      obtain ⟨-, count, hcount, hends⟩ := resolve_eq_ok_iff.mp hresolve
      exact ⟨count, result.1, _, hends, by omega, (erase_of_resolve hresolve).symm.trans h⟩
  | error e =>
      -- Nothing was followed, and the name is the whole chain.
      rw [erase] at h
      cases hlookup : s.lookup name with
      | none =>
          rw [hlookup] at h
          refine ⟨0, name, 1, ⟨rfl, link?_of_lookup_eq_none hlookup⟩, Nat.one_pos, ?_⟩
          rw [chain_succ, hlookup]
          exact h
      | some b =>
          rw [hlookup, hresolve] at h
          dsimp only at h
          split_ifs at h with hreadonly hreference
          have hlink : s.link? name = none := link?_eq_none hlookup (by simpa using hreference)
          refine ⟨0, name, 1, ⟨rfl, hlink⟩, Nat.one_pos, ?_⟩
          rw [chain_succ, hlookup, hlink, ← h]
          simp [eraseLinks, hreadonly]

/-- The first of the links that are read-only is what a removal fails at. -/
theorem eraseLinks_eq_error {steps : Nat} {e : Error}
    (h : s.eraseLinks (s.chain steps name) = .error e) :
    ∃ count other, s.follow name count = some other ∧ s.IsReadOnly other ∧
      (∀ i < count, ∀ before, s.follow name i = some before → ¬ s.IsReadOnly before) ∧
      e = .readonlyVariable other := by
  unfold eraseLinks at h
  split at h
  · next link hfind =>
      cases h
      obtain ⟨hreadonly, count, hcount, hlink, hbefore⟩ := List.find?_eq_some_iff_getElem.mp hfind
      have hget := List.getElem?_eq_getElem hcount
      rw [hlink, getElem?_chain] at hget
      split_ifs at hget with hsteps
      obtain ⟨other, hother, hmap⟩ := Option.bind_eq_some_iff.mp hget
      obtain ⟨b, hb, rfl⟩ := Option.map_eq_some_iff.mp hmap
      refine ⟨count, other, hother, ⟨b, hb, hreadonly⟩, fun i hi before hfollow => ?_, rfl⟩
      rintro ⟨b', hb', hreadonly'⟩
      have hget' := getElem?_chain s steps name i
      rw [if_pos (by omega), hfollow, Option.bind_some, Option.mem_def.mp hb', Option.map_some,
        List.getElem?_eq_getElem (by omega)] at hget'
      have hnot := hbefore i hi
      rw [Option.some.inj hget', hreadonly'] at hnot
      cases hnot
  · cases h

/-- A chain that is resolved is refused for the read-only names in it. -/
theorem erase_eq_error_iff {result : String × Option Binding} (h : s.resolve name = .ok result) :
    (∃ e, s.erase name false = .error e) ↔ ∃ other, s.Leads name other ∧ s.IsReadOnly other := by
  obtain ⟨-, count, hcount, hends⟩ := resolve_eq_ok_iff.mp h
  have hsteps : count < s.limits.referenceDepth.toNat := by omega
  rw [erase_of_resolve h, isReadOnly_iff_mem_chain hends hsteps]
  unfold eraseLinks
  constructor
  · rintro ⟨e, herase⟩
    split at herase
    · next link hfind =>
        have hreadonly := List.find?_some hfind
        exact ⟨link, List.mem_of_find?_eq_some hfind, hreadonly⟩
    · cases herase
  · rintro ⟨link, hlink, hreadonly⟩
    split
    · exact ⟨_, rfl⟩
    · next hfind => exact absurd hreadonly (List.find?_eq_none.mp hfind link hlink)

/-! ### Removals of one name -/

theorem erase_keepTarget (s : Store) (name : String) : s.erase name true =
    match s.lookup name with
    | none => .ok (false, s)
    | some b =>
      if b.attributes.readonly then .error (.readonlyVariable name)
      else .ok (true, s.unbind name) := by
  unfold erase
  cases s.lookup name with
  | none => rfl
  | some b => simp

theorem without_of_erase_keepTarget {found : Bool} (h : s.erase name true = .ok (found, s')) :
    s.Without (· = name) s' ∧ found = (s.lookup name).isSome := by
  rw [erase_keepTarget] at h
  cases hlookup : s.lookup name with
  | none =>
      rw [hlookup] at h
      cases h
      refine ⟨(Without.refl s).congr fun other hbound => ⟨False.elim, ?_⟩, rfl⟩
      rintro rfl
      rw [hlookup] at hbound
      cases hbound
  | some b =>
      rw [hlookup] at h
      dsimp only at h
      split_ifs at h
      cases h
      exact ⟨.unbind s name, rfl⟩

theorem erase_keepTarget_eq_error_iff {e : Error} :
    s.erase name true = .error e ↔ s.IsReadOnly name ∧ e = .readonlyVariable name := by
  rw [erase_keepTarget]
  unfold IsReadOnly
  cases s.lookup name with
  | none => simp
  | some b =>
      dsimp only
      split_ifs with hreadonly
      · simp [hreadonly, eq_comm (a := e)]
      · simp [hreadonly]

/-- **A removal removes exactly the names along references**, each of them with its innermost
binding, and says whether the name was bound; the chain comes to an end then.  Without its targets
the name alone is removed.  If the chain can be resolved, the removal is refused exactly if a name
of it is read-only, and shows the first one.  If it cannot, a reference that is not read-only is not
removed for the reason that it is not resolved. -/
theorem erase_removes_chain (s : Store) (name : String) :
    (∀ found s', s.erase name false = .ok (found, s') →
      (∃ count final, s.Ends name count final) ∧
        s.Without (s.Leads name) s' ∧ found = (s.lookup name).isSome) ∧
    (∀ found s', s.erase name true = .ok (found, s') →
      s.Without (· = name) s' ∧ found = (s.lookup name).isSome) ∧
    (∀ result, s.resolve name = .ok result →
      ((∃ e, s.erase name false = .error e) ↔ ∃ other, s.Leads name other ∧ s.IsReadOnly other) ∧
      ∀ e, s.erase name false = .error e →
        ∃ count other, s.follow name count = some other ∧ s.IsReadOnly other ∧
          (∀ i < count, ∀ before, s.follow name i = some before → ¬ s.IsReadOnly before) ∧
          e = .readonlyVariable other) ∧
    (∀ e, s.erase name true = .error e ↔ s.IsReadOnly name ∧ e = .readonlyVariable name) ∧
    ∀ b, s.lookup name = some b → b.value.isReference = true → b.attributes.readonly = false →
      ∀ e, s.resolve name = .error e → s.erase name false = .error e := by
  refine ⟨fun found s' h => ?_, fun _ _ => without_of_erase_keepTarget,
    fun result hresolve => ⟨erase_eq_error_iff hresolve, fun e h => ?_⟩,
    fun _ => erase_keepTarget_eq_error_iff, fun b hlookup hreference hreadonly e hresolve => ?_⟩
  · obtain ⟨count, final, steps, hends, hsteps, herase⟩ := exists_of_erase h
    exact ⟨⟨count, final, hends⟩, without_of_eraseLinks hends hsteps herase⟩
  · rw [erase_of_resolve hresolve] at h
    exact eraseLinks_eq_error h
  · rw [erase, hlookup, hresolve]
    simp [hreference, hreadonly]

/-- The chain leads out of a call and back into it, and outer bindings of its first and last name
come to light.  Another chain stops at a read-only variable, and a third one comes back. -/
theorem erase_removes_chain_shadowed :
    let reference (target : String) : Binding := ⟨.reference target, .none, 0⟩
    let text (value : String) : Binding := ⟨.scalar value, .none, 0⟩
    let outermost : Frame := ⟨"global", [], Table.ofList [("p", text "outer"),
      ("q", reference "v"), ("v", text "hidden"), ("r", reference "w"),
      ("w", ⟨.scalar "x", ⟨false, true, false⟩, 0⟩), ("c", reference "d"), ("d", reference "c")]⟩
    let s : Store := ⟨[⟨"f", ["1"], Table.ofList [("p", reference "q"), ("v", text "local")]⟩],
      outermost, .standard⟩
    (∃ s', s.erase "p" false = .ok (true, s') ∧ s.Without (s.Leads "p") s' ∧
      s' = ⟨[⟨"f", ["1"], Table.empty⟩], outermost.unbind "q", .standard⟩) ∧
    (s.erase "r" false = .error (.readonlyVariable "w") ∧
      ∃ other, s.Leads "r" other ∧ s.IsReadOnly other) ∧
    s.erase "c" false = .error (.referenceCycle "c") := by
  intro reference text outermost s
  have hp : s.erase "p" false =
      .ok (true, ⟨[⟨"f", ["1"], Table.empty⟩], outermost.unbind "q", .standard⟩) := by decide
  have hr : s.erase "r" false = .error (.readonlyVariable "w") := by decide
  have hresolve : s.resolve "r" = .ok ("w", some ⟨.scalar "x", ⟨false, true, false⟩, 0⟩) := by
    decide
  have hcycle : s.resolve "c" = .error (.referenceCycle "c") := by decide
  exact ⟨⟨_, hp, ((s.erase_removes_chain "p").1 _ _ hp).2.1, rfl⟩,
    ⟨hr, ((s.erase_removes_chain "r").2.2.1 _ hresolve).1.mp ⟨_, hr⟩⟩,
    (s.erase_removes_chain "c").2.2.2.2 (reference "d") (by decide) rfl rfl _ hcycle⟩

end ShellExpansion.Store
