import ShellExpansion.Proofs.Eval.Writes
import ShellExpansion.Proofs.Store.Changes
import ShellExpansion.Session.Basic

/-! # What actions do

Every action but the ones that enter and leave calls makes changes to the store and nothing else,
apart from the option about unset parameters, whether it succeeds or fails (`Eval.OnlyChanges`).  So
an action changes the shell, or enters a call, or leaves one (`Action.perform_moves`).  References
are ended only by the operands of a declaration that clears their attribute (`Action.endedNames`),
they are made only by actions that assign nothing (`Action.isPointing`), and only an action that is
given the outermost frame assigns there past nearer bindings (`Action.scope`). -/

namespace ShellExpansion

variable {rights : Store.Rights}

/-- The second shell is the first one after changes to its store, and perhaps to its options. -/
structure Shell.Changes (rights : Store.Rights) (shell shell' : Shell) : Prop where
  store : Store.Changes rights shell.store shell'.store
  scriptName : shell'.scriptName = shell.scriptName
  arithDepth : shell'.arithDepth = shell.arithDepth

namespace Shell.Changes

variable {shell shell' shell'' : Shell}

theorem of_store {store : Store} (h : Store.Changes rights shell.store store) :
    Changes rights shell { shell with store := store } :=
  ⟨h, rfl, rfl⟩

theorem trans (h : Changes rights shell shell') (h' : Changes rights shell' shell'') :
    Changes rights shell shell'' :=
  ⟨h.store.trans h'.store, h'.scriptName.trans h.scriptName, h'.arithDepth.trans h.arithDepth⟩

instance : IsPreorder Shell (Changes rights) where
  refl shell := of_store (refl shell.store)
  trans _ _ _ := trans

theorem of_writes (hpointing : rights.pointing = false)
    (h : Shell.Writes rights.scope shell shell') : Changes rights shell shell' :=
  ⟨.of_writes hpointing h.store, h.scriptName, h.arithDepth⟩

end Shell.Changes

/-- The second value is the first one without one of its elements. -/
inductive Value.Loses : Value → Value → Prop
  | indexed (elements : IndexedArray) (index : Nat) :
      Loses (.indexed elements) (.indexed (elements.erase index))
  | associative (elements : Table String) (key : String) :
      Loses (.associative elements) (.associative (elements.erase key))

theorem Value.Loses.becomes {old value : Value} (h : old.Loses value) : old.Becomes value := by
  cases h with
  | indexed elements index => exact .indexed (.inr rfl) _
  | associative elements key => exact .associative elements _

theorem Value.Loses.isReference {old value : Value} (h : old.Loses value) :
    value.isReference = false := by
  cases h <;> rfl

namespace Eval

variable {α : Type}

/-- **Removing an element** puts the array without it in its place, or removes a variable that is no
array. -/
theorem respects_unsetElement {R : Shell → Shell → Prop} [IsPreorder Shell R]
    (hput : ∀ (shell : Shell) (final : String) (b : Binding) (value : Value),
      shell.store.at? ⟨.nearest, final⟩ = some b → b.attributes.readonly = false →
      b.value.Loses value →
        R shell { shell with store := shell.store.putValue ⟨.nearest, final⟩ value })
    (herase : ∀ final, Respects R (change (·.erase final false))) (name : String) (key : Key) :
    Respects R (unsetElement name key) := by
  intro shell
  unfold unsetElement
  rw [bind_run, query_run]
  cases hresolve : shell.store.resolve name with
  | error e => exact refl shell
  | ok result =>
      obtain ⟨final, found⟩ := result
      cases found with
      | none => exact refl shell
      | some b =>
          have hat : shell.store.at? ⟨.nearest, final⟩ = some b :=
            (Store.resolve_spec hresolve).2.symm
          dsimp only
          split
          · exact refl shell
          · next hreadonly =>
            have hvalue (value : Value) := hput shell final b value hat (by simpa using hreadonly)
            cases hb : b.value with
            | associative elements =>
                rw [hb] at hvalue
                dsimp only
                rw [bind_run, textOf_run]
                cases key.toText with
                | error fault => exact refl shell
                | ok text =>
                    exact respects_bind_at (hvalue _ (.associative elements text))
                      fun _ _ _ => refl _
            | indexed elements =>
                rw [hb] at hvalue
                dsimp only
                rw [bind_run, indexOf_run]
                cases key.toIndex with
                | error fault => exact refl shell
                | ok index =>
                    dsimp only
                    cases elements.fromEnd index with
                    | ofNat n =>
                        exact respects_bind_at (hvalue _ (.indexed elements n)) fun _ _ _ => refl _
                    | negSucc n => exact Respects.refuseShowing _ _ shell
            | scalar text =>
                exact Respects.bind (respects_indexOf key)
                  (fun index => .ite (herase final) (.pure false)) shell
            | _ => exact refl shell

/-- The evaluation does nothing to the shell but change its store and its options. -/
abbrev OnlyChanges (rights : Store.Rights) (action : Eval α) : Prop :=
  Respects (Shell.Changes rights) action

namespace OnlyChanges

theorem of_writes (hpointing : rights.pointing = false) {action : Eval α}
    (h : OnlyWrites rights.scope action) : OnlyChanges rights action :=
  h.mono fun _ _ => .of_writes hpointing

theorem change {f : Store → Except Error (α × Store)}
    (h : ∀ s a s', f s = .ok (a, s') → Store.Changes rights s s') :
    OnlyChanges rights (Eval.change f) :=
  Respects.change fun shell a _ hf => .of_store (h shell.store a _ hf)

theorem partialChange {f : Store → Except Fault α × Store}
    (h : ∀ s : Store, Store.Changes rights s (f s).2) :
    OnlyChanges rights (Eval.partialChange f) :=
  Respects.partialChange fun shell => .of_store (h shell.store)

theorem unsetElement (hpointing : rights.pointing = false) (name : String) (key : Key) :
    OnlyChanges rights (Eval.unsetElement name key) := by
  refine respects_unsetElement (fun shell final b value hat hreadonly hloses => ?_)
    (fun _ => change fun _ _ _ => Store.erase_changes) name key
  rw [Store.putValue, Store.get_of_at? hat]
  exact .of_store (.of_change (.write hpointing (.inl rfl) (.update b.generation hat hreadonly
    hloses.becomes fun _ => .of_becomes hloses.becomes hloses.isReference)))

end OnlyChanges

end Eval

/-! ### Commands -/

namespace Builtin

open Eval

/-- The name of the variable that an operand of a declaration is about. -/
def operandName (word : String) : String := (splitSubscript (Operand.ofWord word).target).1

/-- The names by which a declaration may end references: those of its operands, if it clears the
attribute. -/
def Options.endedNames (options : Options) (words : List String) : List String :=
  if options.isCleared 'n' then words.map operandName else []

/-- The names by which a command may end references.  Only two commands know the option for it. -/
def Command.endedNames (command : Command) (words : List String) : List String :=
  match command with
  | .declare => parsed "declare" "aAginprx"
  | .localize => parsed "local" "aAiInrx"
  | _ => []
where
  /-- The names for the options and operands that the words parse as. -/
  parsed (command allowed : String) : List String :=
    match Options.parse command allowed.toList words with
    | .ok (options, operands) => options.endedNames operands
    | .error _ => []

/-- A command is given an option that is about references or frames.  Only two commands know
those. -/
def Command.isGiven (command : Command) (letter : Char) (words : List String) : Bool :=
  match command with
  | .declare => parsed "declare" "aAginprx"
  | .localize => parsed "local" "aAiInrx"
  | _ => false
where
  /-- The words parse as options with the letter among them. -/
  parsed (command allowed : String) : Bool :=
    match Options.parse command allowed.toList words with
    | .ok (options, _) => options.isSet letter
    | .error _ => false

/-- The frame that a command's assignments are meant for. -/
def Command.scope (command : Command) (words : List String) : Scope :=
  match command with
  | .declare => if Command.declare.isGiven 'g' words then .outermost else .current
  | .localize => .current
  | _ => .nearest

/-- What a command may do. -/
def Command.storeRights (command : Command) (words : List String) : Store.Rights :=
  ⟨command.endedNames words, command.scope words, command.isGiven 'n' words⟩

section parts

variable {R : Shell → Shell → Prop}

/-- A report about an action changes nothing but what the action does. -/
theorem reportOf_run_snd (describe : Error → String) (action : Eval Unit) (shell : Shell) :
    (reportOf describe action shell).2 = (action shell).2 := by
  unfold reportOf
  cases action shell with
  | mk result shell' =>
      cases result with
      | ok a => rfl
      | error fault => cases fault <;> rfl

theorem respects_reportOf (describe : Error → String) {action : Eval Unit}
    (h : Respects R action) : Respects R (reportOf describe action) := by
  intro shell
  rw [reportOf_run_snd]
  exact h shell

variable [IsPreorder Shell R]

theorem respects_reportEach {α : Type} {action : α → Eval (Option String)} {operands : List α}
    (h : ∀ a ∈ operands, Respects R (action a)) : Respects R (reportEach action operands) :=
  .bind (.mapM_of_mem h) fun _ => .pure _

theorem respects_withOptions {command allowed : String} {words : List String}
    {run : Options → List String → Eval Outcome}
    (h : ∀ options operands, Options.parse command allowed.toList words = .ok (options, operands) →
      Respects R (run options operands)) :
    Respects R (withOptions command allowed words run) := by
  unfold withOptions
  cases hparse : Options.parse command allowed.toList words with
  | ok result => exact h result.1 result.2 hparse
  | error outcome => exact .pure outcome

/-- What is done for one operand of a declaration: a reference is ended, or the variable is made one,
or it is declared and assigned to; and it is made read-only at last. -/
theorem respects_declareOperand {deeper : Evaluators} {options : Options}
    {request : Store.Declaration} {word : String} (command : String)
    (hdrop : options.isCleared 'n' = true → ∀ shell : Shell,
      R shell { shell with store := shell.store.dropReference (operandName word) })
    (hset : request.kind = some .reference → ∀ target, Respects R
      (partialChange (·.setReference (operandName word) target request.scope)))
    (hdeclare : ∀ other : Store.Declaration, other.kind = none ∨ other = request → Respects R
      (partialChange (·.declare (operandName word) other)))
    (hassign : request.kind ≠ some .reference → ∀ value append, Respects R
      (deeper.assign (Operand.ofWord word).target value request.scope append)) :
    Respects R (declareOperand deeper command options request word) := by
  unfold declareOperand
  extract_lets operand forReference
  have hname : operandName word = (splitSubscript operand.target).1 := rfl
  rw [hname] at hdrop hset hdeclare
  cases hsplit : splitSubscript operand.target with
  | mk name subscript =>
      rw [hsplit] at hdrop hset hdeclare
      refine .optional (.refuse _) fun _ => .optional (.refuse _) fun _ => ?_
      extract_lets readonly declared
      have hreadonly (done : Unit) : Respects R (readonly done) :=
        .ite (.discard (hdeclare _ (.inl rfl))) (.pure _)
      have hdeclared (done : Unit) : Respects R (declared done) := by
        unfold declared
        split
        · next hreference _ =>
          exact .bind (.discard (hset (beq_iff_eq.mp hreference) _)) hreadonly
        · next hvalue =>
          refine .bind (.discard (hdeclare request (.inr rfl))) fun _ => ?_
          split
          · next value hsome =>
            -- A value makes this no declaration of a reference, so that it may be assigned.
            have hkind (heq : request.kind = some .reference) : False :=
              hvalue value (beq_iff_eq.mpr heq) hsome
            exact .bind (.discard (hassign hkind value operand.append)) hreadonly
          · exact hreadonly ()
      split
      · next hcleared =>
        intro shell
        dsimp only
        rw [store_bind_run]
        exact respects_bind_at (hdrop hcleared shell) fun done shell' _ => hdeclared done shell'
      · exact hdeclared ()

section settings

variable (hpositional : ∀ args, Respects R (setPositional args))
  (hnounset : ∀ state, Respects R (setNounset state))

include hnounset

theorem respects_setLetters (sign : Char) : ∀ letters : List Char,
    Respects R (setLetters sign letters)
  | [] => .pure none
  | _ :: rest => .ite (.bind (hnounset _) fun _ => respects_setLetters sign rest) (.pure _)

include hpositional

theorem respects_settingsOf_one (word : String) {rest : List String}
    (hrest : Respects R (settingsOf rest)) : Respects R (settingsOf.one word rest) := by
  unfold settingsOf.one
  refine .ite (hpositional rest) ?_
  split
  · refine .ite (.bind (respects_setLetters hnounset _ _) fun complaint => ?_) (hpositional _)
    cases complaint with
    | some complaint => exact .pure _
    | none => exact hrest
  · exact hpositional _

theorem respects_settingsOf : ∀ words : List String, Respects R (settingsOf words)
  | [] => by
      rw [settingsOf]
      exact .pure _
  | [word] => by
      rw [settingsOf]
      exact .ite (.bind .get fun _ => .pure _)
        (respects_settingsOf_one hpositional hnounset word (respects_settingsOf []))
  | word :: option :: rest => by
      rw [settingsOf]
      exact .ite (.ite (.bind (hnounset _) fun _ => respects_settingsOf rest) (.pure _))
        (respects_settingsOf_one hpositional hnounset word (respects_settingsOf (option :: rest)))

end settings

end parts

/-! #### Options that are not allowed -/

theorem lookup_of_giveLetters {command : String} {allowed : List Char} {sign letter : Char}
    (hletter : allowed.contains letter = false) {options options' : Options} {letters : List Char}
    (h : Options.giveLetters command allowed sign options letters = .ok options') :
    options'.states.lookup letter = options.states.lookup letter := by
  induction letters generalizing options with
  | nil =>
      cases h
      rfl
  | cons other rest ih =>
      unfold Options.giveLetters at h
      split_ifs at h with hother
      have hne : letter ≠ other := by
        rintro rfl
        rw [hother] at hletter
        cases hletter
      rw [ih h, Options.give, List.lookup_cons, beq_false_of_ne hne]

theorem lookup_of_go {command : String} {allowed : List Char} {letter : Char}
    (hletter : allowed.contains letter = false) {words : List String}
    {options : Options} {operands : List String} {result : Options × List String}
    (h : Options.parse.go command allowed options operands words = .ok result) :
    result.1.states.lookup letter = options.states.lookup letter := by
  induction words generalizing options operands with
  | nil =>
      cases h
      rfl
  | cons word rest ih =>
      unfold Options.parse.go at h
      split_ifs at h
      · cases h
        rfl
      · cases hletters : Options.letters? word with
        | none =>
            rw [hletters] at h
            exact ih h
        | some found =>
            rw [hletters] at h
            dsimp only at h
            cases hgive : Options.giveLetters command allowed found.1 options found.2 with
            | error outcome =>
                rw [hgive] at h
                cases h
            | ok given =>
                rw [hgive] at h
                rw [ih h, lookup_of_giveLetters hletter hgive]

/-- An option that a command does not know is not given. -/
theorem lookup_of_parse {command : String} {allowed : List Char} {letter : Char}
    (hletter : allowed.contains letter = false) {words operands : List String} {options : Options}
    (h : Options.parse command allowed words = .ok (options, operands)) :
    options.states.lookup letter = none :=
  lookup_of_go hletter h

section commands

variable {deeper : Evaluators} (h : deeper.OnlyWrite)

include h

theorem declareOperand_onlyChanges (command : String) (options : Options)
    {request : Store.Declaration} {word : String} (hscope : request.scope = rights.scope)
    (hpointing : rights.pointing = (request.kind == some .reference))
    (hended : options.isCleared 'n' = true → operandName word ∈ rights.ended) :
    OnlyChanges rights (declareOperand deeper command options request word) := by
  have hpoints (hkind : request.kind = some .reference) : rights.pointing = true := by
    rw [hpointing, hkind]
    rfl
  apply respects_declareOperand
  · intro hcleared shell
    exact .of_store (.of_change (.dropReference (hended hcleared)))
  · intro hkind target
    exact OnlyChanges.partialChange fun s => Store.setReference_changes (hpoints hkind) s _ _ _
  · intro other hother
    refine OnlyChanges.partialChange fun s => s.declare_changes _ other fun hkind => ?_
    obtain hnone | rfl := hother
    · rw [hnone] at hkind
      cases hkind
    · exact hpoints hkind
  · intro hkind value append
    have hassigns : rights.pointing = false := by
      rw [hpointing]
      exact beq_false_of_ne hkind
    rw [hscope]
    exact OnlyChanges.of_writes hassigns (h.assign _ value rights.scope append)

theorem declareAll_onlyChanges (command : String) {options : Options} (inherit : Bool)
    {words : List String} (hpointing : rights.pointing = options.isSet 'n')
    (hended : options.isCleared 'n' = true → words.map operandName ⊆ rights.ended) :
    OnlyChanges rights (declareAll deeper command options rights.scope inherit words) := by
  have hkind : options.isSet 'n' = (kindOf options == some .reference) := by
    unfold kindOf
    cases options.isSet 'n' <;> cases options.isSet 'A' <;> cases options.isSet 'a' <;> rfl
  refine .ite (.pure _) (respects_reportEach fun word hword => respects_reportOf _ ?_)
  exact declareOperand_onlyChanges h _ _ rfl (hpointing.trans hkind) fun hcleared =>
    hended hcleared (List.mem_map_of_mem hword)

omit h in
/-- The options that a command's words parse as are those that are looked at for its rights. -/
theorem parsed_of_parse {command allowed : String} {options : Options}
    {words operands : List String}
    (hparse : Options.parse command allowed.toList words = .ok (options, operands)) :
    (∀ letter, Command.isGiven.parsed letter words command allowed = options.isSet letter) ∧
      (options.isCleared 'n' = true →
        operands.map operandName ⊆ Command.endedNames.parsed words command allowed) := by
  unfold Command.isGiven.parsed Command.endedNames.parsed
  rw [hparse]
  refine ⟨fun _ => rfl, fun hcleared => ?_⟩
  dsimp only
  rw [Options.endedNames, if_pos hcleared]
  exact List.Subset.refl _

theorem unsetOperand_onlyChanges (hpointing : rights.pointing = false) (keepTarget : Bool)
    (word : String) : OnlyChanges rights (unsetOperand deeper keepTarget word) := by
  unfold unsetOperand
  cases splitSubscript word with
  | mk name subscript =>
      refine .ite (.pure _) (respects_reportOf _ ?_)
      cases subscript with
      | some text =>
          have hkey : OnlyChanges rights (deeper.elementKey name text) :=
            .of_writes hpointing (.of_nearest (h.elementKey name text))
          exact .bind hkey fun key => .discard (OnlyChanges.unsetElement hpointing name key)
      | none => exact .discard (OnlyChanges.change fun _ _ _ => Store.erase_changes)

omit h in
theorem settingsOf_onlyChanges (words : List String) : OnlyChanges rights (settingsOf words) :=
  respects_settingsOf (fun args _ => .of_store (.of_change (.setPositional args)))
    (fun _ shell => ⟨refl shell.store, rfl, rfl⟩) words

theorem run_onlyChanges (command : Command) (words : List String) :
    OnlyChanges (command.storeRights words) (command.run deeper words) := by
  cases command with
  | declare =>
      apply respects_withOptions
      intro options operands hparse
      obtain ⟨hgiven, hended⟩ := parsed_of_parse hparse
      have hscope : Command.scope .declare words =
          if options.isSet 'g' then .outermost else .current :=
        congrArg (fun given : Bool => if given then Scope.outermost else .current) (hgiven 'g')
      rw [← hscope]
      exact .ite (.bind .store fun _ => .ofExcept _)
        (declareAll_onlyChanges h "declare" false (hgiven 'n') hended)
  | localize =>
      refine .bind .store fun _ => .ite (.pure _) (respects_withOptions ?_)
      intro options operands hparse
      obtain ⟨hgiven, hended⟩ := parsed_of_parse hparse
      exact declareAll_onlyChanges h "local" _ (hgiven 'n') hended
  | unset =>
      exact respects_withOptions fun options operands _ =>
        respects_reportEach fun word _ => unsetOperand_onlyChanges h rfl _ word
  | readonly =>
      apply respects_withOptions
      intro options operands hparse
      have hlookup : (options.give 'r' true).states.lookup 'n' = none := by
        rw [Options.give, List.lookup_cons]
        exact lookup_of_parse (by decide) hparse
      have hset : (options.give 'r' true).isSet 'n' = false := by
        rw [Options.isSet, hlookup]
        rfl
      have hcleared : (options.give 'r' true).isCleared 'n' = false := by
        rw [Options.isCleared, hlookup]
        rfl
      refine .ite (.bind .store fun _ => .ofExcept _)
        (declareAll_onlyChanges h "readonly" false hset.symm fun hn => ?_)
      rw [hcleared] at hn
      cases hn
  | exports =>
      exact respects_withOptions fun options operands _ =>
        .ite (.bind .store fun _ => .ofExcept _) (declareAll_onlyChanges h "export" false rfl nofun)
  | settings => exact .ite (.bind .store fun _ => .ofExcept _) (settingsOf_onlyChanges words)

end commands

end Builtin

/-! ### Actions -/

/-- What an action does to the shell. -/
inductive Shell.Moves (rights : Store.Rights) (shell : Shell) : Shell → Prop
  | change {shell' : Shell} (h : Shell.Changes rights shell shell') : Moves rights shell shell'
  | push {name : String} {args : List String} {store : Store}
      (h : shell.store.push name args = .ok store) :
      Moves rights shell { shell with store := store }
  | pop {frame : Frame} {store : Store} (h : shell.store.pop? = some (frame, store)) :
      Moves rights shell { shell with store := store }

namespace Action

open Eval

/-- The names by which an action may end references. -/
def endedNames : Action → List String
  | command builtin words => builtin.endedNames words
  | _ => []

/-- The frame that an action's assignments are meant for. -/
def scope : Action → Scope
  | assign _ _ scope _ => scope
  | command builtin words => builtin.scope words
  | store _ _ scope _ => scope
  | setElement _ _ _ _ scope => scope
  | assignLiteral _ _ scope _ => scope
  | _ => .nearest

/-- The action may make references, and point them elsewhere. -/
def isPointing : Action → Bool
  | command builtin words => builtin.isGiven 'n' words
  | declare _ request => request.kind == some .reference
  | setReference _ _ _ => true
  | _ => false

/-- What an action may do. -/
def storeRights (action : Action) : Store.Rights :=
  ⟨action.endedNames, action.scope, action.isPointing⟩

theorem respects_bindingAt {R : Shell → Shell → Prop} [IsPreorder Shell R] (place : Store.Place) :
    Respects R (bindingAt place) :=
  .bind .store fun _ => .pure _

theorem valueAt_onlyWrites {deeper : Evaluators} (h : deeper.OnlyWrite) (target : String) :
    OnlyWrites .nearest (valueAt deeper target) := by
  unfold valueAt
  cases splitSubscript target with
  | mk name subscript =>
      cases subscript with
      | none => exact .query
      | some subscript =>
          exact .bind (h.elementKey name subscript) fun key => respects_getElement? name key

theorem push_moves (deeper : Evaluators) (name : String) (args : List String) :
    Respects (Shell.Moves rights) ((Action.push name args).perform deeper) := by
  intro shell
  rw [perform, bind_run, change_run]
  cases h : shell.store.push name args with
  | error e => exact .change (refl shell)
  | ok store => exact .push h

theorem pop_moves (deeper : Evaluators) :
    Respects (Shell.Moves rights) (Action.pop.perform deeper) := by
  intro shell
  rw [perform, store_bind_run]
  cases h : shell.store.pop? with
  | none => exact .change (refl shell)
  | some result => exact .pop h

/-- The action reads, expands, evaluates and assigns, and does nothing else. -/
def onlyAssigns : Action → Bool
  | erase _ _ => false
  | command _ _ => false
  | push _ _ => false
  | pop => false
  | setPositional _ => false
  | declare _ _ => false
  | setReference _ _ _ => false
  | unsetElement _ _ => false
  | _ => true

theorem isPointing_of_onlyAssigns {action : Action} (h : action.onlyAssigns = true) :
    action.isPointing = false := by
  cases action <;> first | rfl | cases h

/-- **Expansions, evaluations and assignments only write.** -/
theorem perform_onlyWrites {deeper : Evaluators} (h : deeper.OnlyWrite) {action : Action}
    (hassigns : action.onlyAssigns = true) :
    OnlyWrites action.scope (action.perform deeper) := by
  have hreply {scope : Scope} {α : Type} {action : Eval α} (h : OnlyWrites scope action)
      (reply : α → Reply) : OnlyWrites scope (do return reply (← action)) :=
    .bind h fun _ => .pure _
  have hall := h.respectAll
  cases action with
  | ask question => exact .ofExcept _
  | expand text => exact hreply (hall.expand text) _
  | word mode text => exact hreply (hall.expandWord mode text) _
  | braces text =>
      exact hreply (.bind (.ofExcept _) fun _ => .mapM (hall.expandWord .text) _) _
  | arithmetic text => exact hreply (h.evaluate text) _
  | expression text =>
      exact .bind (.ofExcept _) fun parsed => hreply (h.expression "" parsed) _
  | valueOf value source => exact hreply (h.valueOf source value) _
  | isMatch pattern text => exact hreply (hall.matchesWord text pattern) _
  | select subject clauses count => exact hreply (hall.selectBodies subject clauses count) _
  | assign target value scope append =>
      exact .bind (h.assign target value scope append) respects_bindingAt
  | get target => exact hreply (valueAt_onlyWrites h target) _
  | exported => exact hreply .query _
  | dump => exact hreply .get _
  | depth => exact hreply .store fun s => .count s.depth
  | lookup name => exact hreply .store fun s => .binding name (s.lookup name)
  | resolve name => exact .bind .query fun _ => .pure _
  | isSet name => exact hreply .query fun value : Option String => .flag value.isSome
  | names => exact hreply .store fun s => .texts s.names
  | positional index => exact hreply .store fun s => .text (s.getPositional? index)
  | store name value scope append =>
      exact .bind (OnlyWrites.change fun _ _ _ => Store.assign_writes) respects_bindingAt
  | elementKey name subscript => exact hreply (h.elementKey name subscript) _
  | getElement name key => exact hreply (respects_getElement? name key) _
  | setElement name key value append scope =>
      exact .bind (h.setElement name key value append scope) respects_bindingAt
  | allValues name => exact hreply (respects_allValues name) _
  | allKeys name => exact hreply (respects_allKeys name) _
  | length name => exact hreply (respects_countElements name) _
  | slice name start count => exact hreply (respects_slice name start count) _
  | assignLiteral name literal scope append =>
      exact .bind (h.assignLiteral name literal scope append) respects_bindingAt
  | appendLiteral name values overrides =>
      exact .bind (h.appendLiteral name values (Table.ofList overrides)) respects_bindingAt
  | _ => cases hassigns

/-- The action enters or leaves a call, and does nothing else. -/
def movesFrames : Action → Bool
  | push _ _ => true
  | pop => true
  | _ => false

/-- **An action that neither enters nor leaves a call makes changes only.** -/
theorem perform_onlyChanges {deeper : Evaluators} (h : deeper.OnlyWrite) {action : Action}
    (hstays : action.movesFrames = false) :
    OnlyChanges action.storeRights (action.perform deeper) := by
  cases hassigns : action.onlyAssigns with
  | true =>
      exact .of_writes (isPointing_of_onlyAssigns hassigns) (perform_onlyWrites h hassigns)
  | false =>
      cases action with
      | erase name keepTarget =>
          exact .bind (OnlyChanges.change fun _ _ _ => Store.erase_changes) fun _ => .pure _
      | command builtin words =>
          exact .bind (Builtin.run_onlyChanges h builtin words) fun _ => .pure _
      | setPositional args => exact fun shell => .of_store (.of_change (.setPositional args))
      | declare name request =>
          have hpointing (hkind : request.kind = some .reference) :
              (declare name request).storeRights.pointing = true := by
            show (request.kind == some .reference) = true
            rw [hkind]
            rfl
          exact .bind
            (OnlyChanges.partialChange fun s => s.declare_changes name request hpointing)
            respects_bindingAt
      | setReference name target scope =>
          exact .bind
            (OnlyChanges.partialChange fun s => Store.setReference_changes rfl s name target scope)
            respects_bindingAt
      | unsetElement name key =>
          exact .bind (OnlyChanges.unsetElement rfl name key) fun _ => .pure _
      | push => cases hstays
      | pop => cases hstays
      | _ => cases hassigns

/-- **Every action changes the shell, or enters or leaves a call.** -/
theorem perform_moves {deeper : Evaluators} (h : deeper.OnlyWrite) (action : Action) :
    Respects (Shell.Moves action.storeRights) (action.perform deeper) := by
  cases hstays : action.movesFrames with
  | false => exact (perform_onlyChanges h hstays).mono fun _ _ => .change
  | true =>
      cases action with
      | push name args => exact push_moves deeper name args
      | pop => exact pop_moves deeper
      | _ => cases hstays

end Action

end ShellExpansion
