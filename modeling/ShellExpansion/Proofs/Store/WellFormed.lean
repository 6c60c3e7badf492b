import ShellExpansion.Proofs.Store.Lasting

/-! # Well-formed stores

In a well-formed store the frame under all others belongs to no call, no more calls are under way
than the bound allows, and every binding is found under its name and has nothing in it that a
binding cannot have (`Binding.WellFormed`).  This follows from what changes keep of the frames
(`Framed`) and of the values of all names (`lasting_named`). -/

namespace ShellExpansion

theorem Table.get?_eq_some_iff {α : Type} {t : Table α} {key : String} {a : α} :
    t.get? key = some a ↔ (key, a) ∈ t.entries := by
  have aux (entries : List (String × α)) (hnodup : (entries.map Prod.fst).Nodup) :
      entries.lookup key = some a ↔ (key, a) ∈ entries := by
    induction entries with
    | nil => simp
    | cons entry rest ih =>
        obtain ⟨hhead, hrest⟩ := List.nodup_cons.mp hnodup
        by_cases hkey : key = entry.1
        · -- The key does not occur behind its first entry.
          have hnot : (key, a) ∉ rest :=
            fun hmem => hhead (hkey ▸ List.mem_map_of_mem hmem)
          rw [List.lookup_cons, hkey, beq_self_eq_true, List.mem_cons]
          rw [hkey] at hnot
          simp [hnot, Prod.ext_iff, eq_comm]
        · rw [List.lookup_cons, beq_false_of_ne hkey, List.mem_cons, ih hrest]
          simp [Prod.ext_iff, hkey]
  exact aux t.entries t.nodup

/-- What a table made of pairs has in it is one of them. -/
theorem Table.mem_of_get?_ofList {α : Type} {pairs : List (String × α)} {key : String} {a : α}
    (h : (Table.ofList pairs).get? key = some a) : (key, a) ∈ pairs := by
  have hbound : ∀ key a, (Table.ofList pairs).get? key = some a → (key, a) ∈ pairs := by
    refine List.foldlRecOn pairs (fun (t : Table α) pair => t.insert pair.1 pair.2)
      (motive := fun t => ∀ key a, t.get? key = some a → (key, a) ∈ pairs) ?_
      fun t ht pair hpair key a h => ?_
    · intro key a h
      cases h
    · rw [Table.get?_insert] at h
      split_ifs at h with heq
      · cases h
        exact heq ▸ hpair
      · exact ht key a h
  exact hbound key a h

/-- A binding has no attributes but the three that can be set and the kind of its value; an array
has no negative indices, and a reference no target that could not be the name of a variable. -/
structure Binding.WellFormed (b : Binding) : Prop where
  attributes : ∀ a, b.has a = true → b.value.kind? = some a ∨ a ∈ [.readonly, .exported, .integer]
  indices : ∀ elements, b.value = .indexed elements → ∀ index ∈ elements.indices, (0 : Int) ≤ index
  target : ∀ target, b.value = .reference target → target = "" ∨ isIdentifier target = true

namespace Store

variable {s : Store}

/-- The frame under all others belongs to no call, there are not too many above it, and each of
their entries is well-formed, and found under its name. -/
structure WellFormed (callDepth : Int) (s : Store) : Prop where
  outermost : s.frames.getLast?.map Frame.name = some "global"
  depth : (s.frames.length : Int) ≤ callDepth + 1
  bindings : ∀ frame ∈ s.frames, ∀ entry ∈ frame.bindings.entries,
    frame.bindings.get? entry.1 = some entry.2 ∧ entry.2.WellFormed

/-- The name is one of a variable, and so is the target that a reference has. -/
def Named (name : String) (value : Value) : Prop :=
  isIdentifier name = true ∧
    ∀ target, value = .reference target → target = "" ∨ isIdentifier target = true

theorem lasting_named (rights : Rights) : Lasting rights Named where
  unset hname := ⟨hname, fun _ heq => (nomatch heq)⟩
  written {name old value} h _ hvalue _ := by
    refine ⟨h.1, fun target heq => ?_⟩
    cases hvalue with
    | refl => exact h.2 target heq
    | reference _ htarget =>
        cases heq
        exact .inr htarget
    | _ => cases heq
  converted {name old value kind} h hvalue _ := by
    refine ⟨h.1, fun target heq => ?_⟩
    rw [heq] at hvalue
    rcases reference_of_converted hvalue with hold | ⟨-, hempty | ⟨htarget, -⟩⟩
    · exact h.2 target hold
    · exact .inl hempty
    · exact .inr htarget
  pointed h _ htarget _ := ⟨h.1, fun _ heq => Value.reference.inj heq ▸ .inr htarget⟩
  ended {name target} h := by
    refine ⟨h.1, fun _ heq => ?_⟩
    unfold endedReference at heq
    split_ifs at heq

theorem wellFormed_of_framed {limits : Limits} (hframed : s.Framed limits)
    (hvalues : s.EveryValue Named) : s.WellFormed limits.callDepth where
  outermost := by
    rw [frames, List.getLast?_append, List.getLast?_singleton, Option.some_or, Option.map_some,
      hframed.outermost]
    rfl
  depth := by
    have hdepth := hframed.depth
    rw [frames, List.length_append, List.length_singleton]
    unfold Store.depth at hdepth
    omega
  bindings frame hframe entry hentry := by
    have hget : frame.bindings.get? entry.1 = some entry.2 := Table.get?_eq_some_iff.mpr hentry
    obtain ⟨level, hlevel⟩ := mem_frames_iff.mp hframe
    have hslot : s.slot? level entry.1 = some entry.2 := by
      rw [slot?, hlevel, Option.bind_some, hget]
    refine ⟨hget, fun a ha => ?_, fun _ _ index _ => Int.natCast_nonneg index, (hvalues hslot).2⟩
    cases a with
    | readonly => simp
    | exported => simp
    | integer => simp
    | _ => exact .inl (beq_iff_eq.mp ha)

end Store

end ShellExpansion
