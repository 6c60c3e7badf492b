import Mathlib.Data.Nat.Find
import ShellExpansion.Store.Basic

/-! # Frames by level

The level of a frame is the number of frames below it: the outermost frame has level zero, and a
frame keeps its level while calls are entered and left above it.  A store is seen as the bindings of
names on levels (`Store.slot?`).  A scope means one level for each name (`Store.level`); binding and
removing a name there changes this one binding and nothing else (`slot?_bind`, `slot?_unbind`). -/

namespace ShellExpansion

namespace Frame

/-- What a frame has besides its variables. -/
def header (frame : Frame) : String × List String := (frame.name, frame.positional)

@[simp] theorem get?_bind (frame : Frame) (name other : String) (b : Binding) :
    (frame.bind name b).bindings.get? other =
      if other = name then some b else frame.bindings.get? other :=
  Table.get?_insert ..

@[simp] theorem get?_unbind (frame : Frame) (name other : String) :
    (frame.unbind name).bindings.get? other =
      if other = name then none else frame.bindings.get? other :=
  Table.get?_erase ..

end Frame

namespace Store

/-- The frame with the given number of frames below it. -/
def frame? (s : Store) (level : Nat) : Option Frame := (s.outermost :: s.inner.reverse)[level]?

/-- The binding of a name in the frame of a level. -/
def slot? (s : Store) (level : Nat) (name : String) : Option Binding :=
  (s.frame? level).bind fun frame => frame.bindings.get? name

/-- The level that a scope means for a name: the nearest one is the highest on which the name is
bound, and the lowest if there is none. -/
def level (s : Store) (scope : Scope) (name : String) : Nat :=
  match scope with
  | .nearest => Nat.findGreatest (fun level => (s.slot? level name).isSome = true) s.depth
  | .current => s.depth
  | .outermost => 0

/-! ### Frames that are pushed -/

variable {s : Store} {level : Nat} {name other : String} {scope : Scope} {b : Binding}

theorem frame?_of_lt (h : s.depth < level) : s.frame? level = none := by
  refine List.getElem?_eq_none_iff.mpr ?_
  rw [List.length_cons, List.length_reverse]
  exact h

theorem frame?_cons (frame : Frame) (rest : List Frame) (outermost : Frame) (limits : Limits)
    (level : Nat) :
    (Store.mk (frame :: rest) outermost limits).frame? level =
      if level = rest.length + 1 then some frame
      else (Store.mk rest outermost limits).frame? level := by
  unfold frame?
  rw [List.reverse_cons, ← List.cons_append, List.getElem?_append]
  simp only [List.length_cons, List.length_reverse]
  split_ifs with h h' h'
  · omega
  · rfl
  · simp [h']
  · have hnone : (outermost :: rest.reverse)[level]? = none := by
      refine List.getElem?_eq_none_iff.mpr ?_
      rw [List.length_cons, List.length_reverse]
      omega
    rw [hnone]
    refine List.getElem?_eq_none_iff.mpr ?_
    simp
    omega

theorem mem_frames_iff {frame : Frame} :
    frame ∈ s.frames ↔ ∃ level, s.frame? level = some frame := by
  have hmem : frame ∈ s.frames ↔ frame ∈ s.outermost :: s.inner.reverse := by
    rw [frames, List.mem_append, List.mem_singleton, List.mem_cons, List.mem_reverse, or_comm]
  rw [hmem, List.mem_iff_getElem?]
  rfl

theorem level_nearest_eq_iff {l : Nat} : s.level .nearest name = l ↔
    l ≤ s.depth ∧ (l ≠ 0 → (s.slot? l name).isSome = true) ∧
      ∀ ⦃k⦄, l < k → k ≤ s.depth → ¬ (s.slot? k name).isSome = true :=
  Nat.findGreatest_eq_iff

theorem level_le_depth (s : Store) (scope : Scope) (name : String) :
    s.level scope name ≤ s.depth := by
  cases scope with
  | nearest => exact Nat.findGreatest_le _
  | current => exact Nat.le_refl _
  | outermost => exact Nat.zero_le _

/-- The levels that scopes mean depend on the bound names only. -/
theorem level_congr {s' : Store} (hdepth : s'.depth = s.depth)
    (hslots : ∀ level ≠ 0, (s'.slot? level name).isSome = (s.slot? level name).isSome)
    (scope : Scope) : s'.level scope name = s.level scope name := by
  cases scope with
  | nearest =>
      obtain ⟨hle, hbound, habove⟩ := level_nearest_eq_iff.mp (Eq.refl (s.level .nearest name))
      refine level_nearest_eq_iff.mpr ⟨by omega, fun hne => ?_, fun k hlt hk => ?_⟩
      · rw [hslots _ hne]
        exact hbound hne
      · rw [hslots k (by omega)]
        exact habove hlt (by omega)
  | current => exact hdepth
  | outermost => rfl

/-! ### The innermost frame -/

section innermost
variable (frame : Frame) (rest : List Frame) (outermost : Frame) (limits : Limits)

theorem slot?_cons (level : Nat) (name : String) :
    (Store.mk (frame :: rest) outermost limits).slot? level name =
      if level = rest.length + 1 then frame.bindings.get? name
      else (Store.mk rest outermost limits).slot? level name := by
  unfold slot?
  rw [frame?_cons]
  split_ifs <;> rfl

theorem level_nearest_cons (name : String) :
    (Store.mk (frame :: rest) outermost limits).level .nearest name =
      if (frame.bindings.get? name).isSome then rest.length + 1
      else (Store.mk rest outermost limits).level .nearest name := by
  have hdepth : (Store.mk (frame :: rest) outermost limits).depth = rest.length + 1 := rfl
  split_ifs with h
  · refine level_nearest_eq_iff.mpr ⟨Nat.le_refl _, fun _ => ?_, fun k hlt hk => ?_⟩
    · rw [slot?_cons, if_pos rfl]
      exact h
    · omega
  · obtain ⟨hle, hbound, habove⟩ := level_nearest_eq_iff.mp
      (Eq.refl ((Store.mk rest outermost limits).level .nearest name))
    have hrest : (Store.mk rest outermost limits).depth = rest.length := rfl
    refine level_nearest_eq_iff.mpr ⟨by omega, fun hne => ?_, fun k hlt hk => ?_⟩
    · rw [slot?_cons, if_neg (by omega)]
      exact hbound hne
    · rw [slot?_cons]
      split_ifs with hlevel
      · exact h
      · exact habove hlt (by omega)

end innermost

/-! ### Looking up -/

theorem lookup_eq_slot? (s : Store) (name : String) :
    s.lookup name = s.slot? (s.level .nearest name) name := by
  obtain ⟨inner, outermost, limits⟩ := s
  induction inner with
  | nil =>
      show [outermost].findSome? _ = outermost.bindings.get? name
      cases h : outermost.bindings.get? name <;> simp [List.findSome?, h]
  | cons frame rest ih =>
      show List.findSome? _ (frame :: _) = _
      rw [List.findSome?_cons, level_nearest_cons, slot?_cons]
      cases h : frame.bindings.get? name with
      | some b => simp
      | none =>
          have hle := level_le_depth (Store.mk rest outermost limits) .nearest name
          have hdepth : (Store.mk rest outermost limits).depth = rest.length := rfl
          simp only [Option.isSome_none, Bool.false_eq_true, if_false]
          rw [if_neg (by omega), ← ih]
          rfl

theorem level_of_lookup_eq_none (h : s.lookup name = none) : s.level .nearest name = 0 := by
  by_contra hne
  have hbound := (level_nearest_eq_iff.mp rfl).2.1 hne
  rw [← lookup_eq_slot?, h] at hbound
  cases hbound

theorem find?_eq_slot? (s : Store) (scope : Scope) (name : String) :
    s.find? scope name = s.slot? (s.level scope name) name := by
  cases scope with
  | nearest => exact lookup_eq_slot? s name
  | current =>
      obtain ⟨inner, outermost, limits⟩ := s
      cases inner with
      | nil => rfl
      | cons frame rest =>
          show frame.bindings.get? name = _
          rw [slot?_cons]
          exact (if_pos rfl).symm
  | outermost => rfl

/-- What the innermost frame binds is what the name shows. -/
theorem lookup_of_find?_current (h : s.find? .current name = some b) : s.lookup name = some b := by
  rw [find?_eq_slot?] at h
  have hlevel : s.level .nearest name = s.depth :=
    level_nearest_eq_iff.mpr ⟨Nat.le_refl _, fun _ => Option.isSome_of_eq_some h, by omega⟩
  rw [lookup_eq_slot?, hlevel]
  exact h

/-! ### Changing a frame -/

theorem frame?_modifyCurrent (s : Store) (f : Frame → Frame) (level : Nat) :
    (s.modifyCurrent f).frame? level =
      if level = s.depth then (s.frame? level).map f else s.frame? level := by
  obtain ⟨inner, outermost, limits⟩ := s
  cases inner with
  | nil => cases level <;> rfl
  | cons frame rest =>
      show (Store.mk (f frame :: rest) outermost limits).frame? level = _
      rw [frame?_cons, frame?_cons]
      have hdepth : (Store.mk (frame :: rest) outermost limits).depth = rest.length + 1 := rfl
      split_ifs <;> first | rfl | omega

theorem frame?_modifyOutermost (s : Store) (f : Frame → Frame) (level : Nat) :
    ({ s with outermost := f s.outermost } : Store).frame? level =
      if level = 0 then (s.frame? level).map f else s.frame? level := by
  cases level <;> rfl

theorem length_modifyHolder? {f : Frame → Frame} {frames inner : List Frame}
    (h : modifyHolder? name f frames = some inner) : inner.length = frames.length := by
  induction frames generalizing inner with
  | nil => cases h
  | cons frame rest ih =>
      unfold modifyHolder? at h
      split_ifs at h
      · cases h
        rfl
      · obtain ⟨inner', hinner, rfl⟩ := Option.map_eq_some_iff.mp h
        rw [List.length_cons, List.length_cons, ih hinner]

theorem level_of_modifyHolder?_eq_none {f : Frame → Frame}
    (h : modifyHolder? name f s.inner = none) : s.level .nearest name = 0 := by
  obtain ⟨frames, outermost, limits⟩ := s
  induction frames with
  | nil => rfl
  | cons frame rest ih =>
      unfold modifyHolder? at h
      rw [level_nearest_cons]
      split_ifs at h ⊢
      exact ih (Option.map_eq_none_iff.mp h)

theorem frame?_modifyHolder? {f : Frame → Frame} {inner : List Frame}
    (h : modifyHolder? name f s.inner = some inner) (level : Nat) :
    ({ s with inner := inner } : Store).frame? level =
      if level = s.level .nearest name then (s.frame? level).map f else s.frame? level := by
  obtain ⟨frames, outermost, limits⟩ := s
  induction frames generalizing inner with
  | nil => cases h
  | cons frame rest ih =>
      unfold modifyHolder? at h
      rw [level_nearest_cons]
      split_ifs at h with hbound
      · cases h
        show (Store.mk (f frame :: rest) outermost limits).frame? level = _
        rw [frame?_cons, frame?_cons, if_pos hbound]
        split_ifs <;> rfl
      · obtain ⟨inner', hinner, rfl⟩ := Option.map_eq_some_iff.mp h
        have hlength : inner'.length = rest.length := length_modifyHolder? hinner
        have ih := ih hinner
        have hle := level_le_depth (Store.mk rest outermost limits) .nearest name
        have hdepth : (Store.mk rest outermost limits).depth = rest.length := rfl
        show (Store.mk (frame :: inner') outermost limits).frame? level = _
        rw [frame?_cons, frame?_cons, if_neg hbound, hlength]
        by_cases hlevel : level = rest.length + 1
        · rw [if_pos hlevel, if_pos hlevel, if_neg (by omega)]
        · rw [if_neg hlevel, if_neg hlevel]
          exact ih

/-! ### Binding and removing names -/

theorem frame?_bind (s : Store) (scope : Scope) (name : String) (b : Binding) (level : Nat) :
    (s.bind scope name b).frame? level =
      if level = s.level scope name then (s.frame? level).map (·.bind name b)
      else s.frame? level := by
  cases scope with
  | nearest =>
      unfold Store.bind
      cases h : modifyHolder? name (·.bind name b) s.inner with
      | some inner => exact frame?_modifyHolder? h level
      | none =>
          rw [level_of_modifyHolder?_eq_none h]
          exact frame?_modifyOutermost s (·.bind name b) level
  | current => exact frame?_modifyCurrent s _ level
  | outermost => exact frame?_modifyOutermost s (·.bind name b) level

theorem frame?_unbind (s : Store) (name : String) (level : Nat) :
    (s.unbind name).frame? level =
      if level = s.level .nearest name then (s.frame? level).map (·.unbind name)
      else s.frame? level := by
  unfold Store.unbind
  cases h : modifyHolder? name (·.unbind name) s.inner with
  | some inner => exact frame?_modifyHolder? h level
  | none =>
      rw [level_of_modifyHolder?_eq_none h]
      exact frame?_modifyOutermost s (·.unbind name) level

theorem exists_frame? (h : level ≤ s.depth) : ∃ frame, s.frame? level = some frame := by
  have hlt : level < (s.outermost :: s.inner.reverse).length := by
    rw [List.length_cons, List.length_reverse]
    exact Nat.lt_succ_of_le h
  exact ⟨_, List.getElem?_eq_getElem hlt⟩

/-- **Binding a name changes one binding.** -/
theorem slot?_bind (s : Store) (scope : Scope) (name : String) (b : Binding) (level : Nat)
    (other : String) :
    (s.bind scope name b).slot? level other =
      if level = s.level scope name ∧ other = name then some b else s.slot? level other := by
  unfold slot?
  rw [frame?_bind]
  by_cases hlevel : level = s.level scope name
  · obtain ⟨frame, hframe⟩ := exists_frame? (hlevel ▸ level_le_depth s scope name)
    rw [if_pos hlevel, hframe, Option.map_some, Option.bind_some, Frame.get?_bind]
    simp only [hlevel, true_and, Option.bind_some]
  · simp only [hlevel, if_false, false_and]

/-- **Removing a name changes one binding.** -/
theorem slot?_unbind (s : Store) (name : String) (level : Nat) (other : String) :
    (s.unbind name).slot? level other =
      if level = s.level .nearest name ∧ other = name then none else s.slot? level other := by
  unfold slot?
  rw [frame?_unbind]
  by_cases hlevel : level = s.level .nearest name
  · obtain ⟨frame, hframe⟩ := exists_frame? (hlevel ▸ level_le_depth s .nearest name)
    rw [if_pos hlevel, hframe, Option.map_some, Option.bind_some, Frame.get?_unbind]
    simp only [hlevel, true_and, Option.bind_some]
  · simp only [hlevel, if_false, false_and]

/-! ### What stays -/

theorem depth_modifyCurrent (s : Store) (f : Frame → Frame) :
    (s.modifyCurrent f).depth = s.depth := by
  obtain ⟨inner, outermost, limits⟩ := s
  cases inner <;> rfl

@[simp] theorem depth_bind (s : Store) (scope : Scope) (name : String) (b : Binding) :
    (s.bind scope name b).depth = s.depth := by
  cases scope with
  | nearest =>
      unfold Store.bind
      cases h : modifyHolder? name (·.bind name b) s.inner with
      | some inner => exact length_modifyHolder? h
      | none => rfl
  | current => exact depth_modifyCurrent s _
  | outermost => rfl

@[simp] theorem depth_unbind (s : Store) (name : String) : (s.unbind name).depth = s.depth := by
  unfold Store.unbind
  cases h : modifyHolder? name (·.unbind name) s.inner with
  | some inner => exact length_modifyHolder? h
  | none => rfl

@[simp] theorem limits_bind (s : Store) (scope : Scope) (name : String) (b : Binding) :
    (s.bind scope name b).limits = s.limits := by
  cases scope with
  | nearest =>
      unfold Store.bind
      cases modifyHolder? name (·.bind name b) s.inner <;> rfl
  | current =>
      obtain ⟨inner, outermost, limits⟩ := s
      cases inner <;> rfl
  | outermost => rfl

@[simp] theorem limits_unbind (s : Store) (name : String) : (s.unbind name).limits = s.limits := by
  unfold Store.unbind
  cases modifyHolder? name (·.unbind name) s.inner <;> rfl

theorem header_bind (s : Store) (scope : Scope) (name : String) (b : Binding) (level : Nat) :
    ((s.bind scope name b).frame? level).map Frame.header = (s.frame? level).map Frame.header := by
  rw [frame?_bind]
  split_ifs
  · rw [Option.map_map]
    rfl
  · rfl

end Store

end ShellExpansion
