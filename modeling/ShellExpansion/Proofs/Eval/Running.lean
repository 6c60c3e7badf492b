import ShellExpansion.Shell

/-! # Runs of evaluations

What the parts that evaluations are made of give when they run on a shell.  A sequence runs its
second part on the shell that the first one leaves, if that succeeds (`bind_run`): where it is known
what the first part gives, the sequence is the rest of it (`bind_run_of_ok`). -/

namespace ShellExpansion.Eval

variable {α β : Type} {shell shell' : Shell}

theorem bind_run (x : Eval α) (rest : α → Eval β) (shell : Shell) :
    (x >>= rest) shell = match x shell with
      | (.ok a, shell') => rest a shell'
      | (.error fault, shell') => (.error fault, shell') := by
  show ExceptT.bind x rest shell = _
  simp only [ExceptT.bind, ExceptT.mk, bind, StateT.bind, ExceptT.bindCont]
  cases x shell with
  | mk result shell' => cases result <;> rfl

theorem bind_run_of_ok {x : Eval α} {rest : α → Eval β} {a : α}
    (h : x shell = (.ok a, shell')) : (x >>= rest) shell = rest a shell' := by
  rw [bind_run, h]

theorem bind_run_of_error {x : Eval α} {rest : α → Eval β} {fault : Fault}
    (h : x shell = (.error fault, shell')) : (x >>= rest) shell = (.error fault, shell') := by
  rw [bind_run, h]

/-- A sequence succeeds if both of its parts do. -/
theorem bind_eq_ok {x : Eval α} {rest : α → Eval β} {b : β}
    (h : (x >>= rest) shell = (.ok b, shell')) :
    ∃ a between, x shell = (.ok a, between) ∧ rest a between = (.ok b, shell') := by
  rw [bind_run] at h
  cases hx : x shell with
  | mk result between =>
      rw [hx] at h
      cases result with
      | ok a => exact ⟨a, between, rfl, h⟩
      | error fault => cases h

/-- A sequence fails where its first part fails, or behind it in the second one. -/
theorem bind_eq_error {x : Eval α} {rest : α → Eval β} {fault : Fault}
    (h : (x >>= rest) shell = (.error fault, shell')) :
    x shell = (.error fault, shell') ∨
      ∃ a between, x shell = (.ok a, between) ∧ rest a between = (.error fault, shell') := by
  rw [bind_run] at h
  cases hx : x shell with
  | mk result between =>
      rw [hx] at h
      cases result with
      | ok a => exact .inr ⟨a, between, rfl, h⟩
      | error fault =>
          cases h
          exact .inl rfl

theorem discard_run (x : Eval α) (shell : Shell) :
    (discard x : Eval Unit) shell = match x shell with
      | (.ok _, shell') => (.ok (), shell')
      | (.error fault, shell') => (.error fault, shell') :=
  bind_run x (fun _ => pure ()) shell

theorem discard_run_of_ok {x : Eval α} {a : α} (h : x shell = (.ok a, shell')) :
    (discard x : Eval Unit) shell = (.ok (), shell') :=
  bind_run_of_ok h

theorem discard_run_snd (x : Eval α) (shell : Shell) :
    ((discard x : Eval Unit) shell).2 = (x shell).2 := by
  rw [discard_run]
  cases x shell with
  | mk result shell' => cases result <;> rfl

theorem ofExcept_run (result : Except Fault α) (shell : Shell) :
    (ofExcept result : Eval α) shell = (result, shell) := by
  cases result <;> rfl

/-- An error is refused as it is, or for a number that its text cannot show. -/
theorem refuseShowing_run (n : Int) (e : Error) (shell : Shell) :
    (refuseShowing n e : Eval α) shell =
      (.error (if Text.isWritable n then .error e else .numberTooLong), shell) := by
  unfold refuseShowing checkWritable
  rw [bind_run, ofExcept_run, List.all_cons, List.all_nil, Bool.and_true]
  cases Text.isWritable n <;> rfl

theorem refuseShowing_eq_error {n : Int} {e e' : Error}
    (h : (refuseShowing n e : Eval α) shell = (.error (.error e'), shell')) :
    e' = e ∧ shell' = shell := by
  rw [refuseShowing_run] at h
  cases hn : Text.isWritable n with
  | true =>
      rw [hn] at h
      cases h
      exact ⟨rfl, rfl⟩
  | false =>
      rw [hn] at h
      cases h

theorem store_bind_run (rest : Store → Eval β) (shell : Shell) :
    (store >>= rest) shell = rest shell.store shell := rfl

theorem limits_bind_run (rest : Limits → Eval β) (shell : Shell) :
    (limits >>= rest) shell = rest shell.store.limits shell := rfl

theorem query_run (f : Store → Except Error α) (shell : Shell) :
    query f shell = match f shell.store with
      | .ok a => (.ok a, shell)
      | .error e => (.error (.error e), shell) := by
  unfold query
  rw [store_bind_run]
  cases f shell.store <;> rfl

theorem change_run (f : Store → Except Error (α × Store)) (shell : Shell) :
    change f shell = match f shell.store with
      | .ok (a, store) => (.ok a, { shell with store := store })
      | .error e => (.error (.error e), shell) := by
  unfold change
  rw [store_bind_run]
  cases f shell.store <;> rfl

theorem query_run_of_ok {f : Store → Except Error α} {a : α} (h : f shell.store = .ok a) :
    query f shell = (.ok a, shell) := by
  rw [query_run, h]

theorem change_run_of_ok {f : Store → Except Error (α × Store)} {a : α} {store : Store}
    (h : f shell.store = .ok (a, store)) :
    change f shell = (.ok a, { shell with store := store }) := by
  rw [change_run, h]

theorem partialChange_run (f : Store → Except Fault α × Store) (shell : Shell) :
    partialChange f shell = ((f shell.store).1, { shell with store := (f shell.store).2 }) := by
  unfold partialChange
  rw [store_bind_run]
  cases f shell.store with
  | mk result store => cases result <;> rfl

theorem change_eq_ok {f : Store → Except Error (α × Store)} {a : α}
    (h : change f shell = (.ok a, shell')) :
    ∃ store, f shell.store = .ok (a, store) ∧ shell' = { shell with store := store } := by
  rw [change_run] at h
  cases hf : f shell.store with
  | ok result =>
      rw [hf] at h
      cases h
      exact ⟨_, rfl, rfl⟩
  | error e =>
      rw [hf] at h
      cases h

theorem change_eq_error {f : Store → Except Error (α × Store)} {fault : Fault}
    (h : change f shell = (.error fault, shell')) :
    ∃ e, f shell.store = .error e ∧ fault = .error e ∧ shell' = shell := by
  rw [change_run] at h
  cases hf : f shell.store with
  | ok result =>
      rw [hf] at h
      cases h
  | error e =>
      rw [hf] at h
      cases h
      exact ⟨e, rfl, rfl, rfl⟩

theorem discard_eq_ok {x : Eval α} (h : (discard x : Eval Unit) shell = (.ok (), shell')) :
    ∃ a, x shell = (.ok a, shell') := by
  obtain ⟨a, between, hx, hrest⟩ := bind_eq_ok h
  cases hrest
  exact ⟨a, hx⟩

/-! ### Runs that are the same -/

/-- Sequences run alike if they begin alike and go on alike behind everything that this gives. -/
theorem bind_congr_at {first other : Eval α} {rest behind : α → Eval β}
    (h : first shell = other shell)
    (hrest : ∀ a shell', first shell = (.ok a, shell') → rest a shell' = behind a shell') :
    (first >>= rest) shell = (other >>= behind) shell := by
  rw [bind_run, bind_run, ← h]
  cases hfirst : first shell with
  | mk result shell' =>
      cases result with
      | ok a => exact hrest a shell' hfirst
      | error fault => rfl

theorem bind_congr_run {first other : Eval α} (h : first shell = other shell)
    (rest : α → Eval β) : (first >>= rest) shell = (other >>= rest) shell :=
  bind_congr_at h fun _ _ _ => rfl

theorem query_congr_run {f g : Store → Except Error α} (h : f shell.store = g shell.store) :
    query f shell = query g shell := by
  rw [query_run, query_run, h]

theorem change_congr_run {f g : Store → Except Error (α × Store)}
    (h : f shell.store = g shell.store) : change f shell = change g shell := by
  rw [change_run, change_run, h]

end ShellExpansion.Eval
