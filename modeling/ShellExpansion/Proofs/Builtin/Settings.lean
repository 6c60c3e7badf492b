import Mathlib.Tactic.SplitIfs
import ShellExpansion.Builtin.Command
import ShellExpansion.Proofs.Eval.Running
import ShellExpansion.Proofs.Except

/-! # Settings that are refused

`set` carries out its options one after the other, up to the first that it refuses, and there is no
other way in which it fails (`settingsOf_of_refused`, `stops_of_settingsOf`).  What it leaves behind
then is a shell in which the options in front of that one count: parameters begin behind all
options, so that none of them is replaced, but unset parameters may have become errors or may be
none any more (`settings_refused`). -/

namespace ShellExpansion.Builtin

open Eval

variable {shell shell' : Shell} {args rest : List String} {outcome : Outcome}

/-! ### Options -/

/-- The sign of an option word that turns an option on or off. -/
def signOf (on : Bool) : Char := if on then '-' else '+'

/-- An option that `set` carries out. -/
inductive Setting
  /-- `-u` or `+u`, in which the letter may be repeated. -/
  | short (on : Bool) (more : Nat)
  /-- `-o nounset` or `+o nounset`. -/
  | long (on : Bool)

/-- An option that `set` refuses. -/
inductive BadSetting
  /-- A letter that is no option, behind so many that are one. -/
  | short (on : Bool) (before : Nat) (letter : Char) (behind : List Char)
  /-- A name that is no option. -/
  | long (on : Bool) (option : String)

namespace Setting

/-- The words of the option. -/
def words : Setting → List String
  | short on more => [String.ofList (signOf on :: List.replicate (more + 1) 'u')]
  | long on => [String.ofList [signOf on, 'o'], "nounset"]

/-- What the option asks for, each time that it does: that unset parameters are errors or not. -/
def asked : Setting → List Bool
  | short on more => List.replicate (more + 1) on
  | long on => [on]

end Setting

namespace BadSetting

/-- The words of the option, up to what is refused. -/
def words : BadSetting → List String
  | short on before letter behind =>
    [String.ofList (signOf on :: (List.replicate before 'u' ++ letter :: behind))]
  | long on option => [String.ofList [signOf on, 'o'], option]

/-- What the letters in front of the one that is refused ask for. -/
def asked : BadSetting → List Bool
  | short on before _ _ => List.replicate before on
  | long _ _ => []

/-- The complaint about the option. -/
def complaint : BadSetting → Outcome
  | short on _ letter _ =>
    .complaint "set" (String.ofList [signOf on, letter] ++ ": invalid option") 2
  | long _ option => .complaint "set" (option ++ ": invalid option name") 1

/-- There is no such option.  A word of two characters can begin an option of another form. -/
def IsRefused : BadSetting → Prop
  | short on before letter behind => letter ≠ 'u' ∧
    String.ofList (signOf on :: (List.replicate before 'u' ++ letter :: behind)) ∉
      ["-o", "+o", "--"]
  | long _ option => option ≠ "nounset"

end BadSetting

/-- The shell after such states were asked for: the last one counts. -/
def ask (shell : Shell) (states : List Bool) : Shell :=
  { shell with nounset := states.getLast?.getD shell.nounset }

theorem ask_append (shell : Shell) (first later : List Bool) :
    ask (ask shell first) later = ask shell (first ++ later) := by
  unfold ask
  rw [List.getLast?_append]
  cases later.getLast? <;> rfl

/-- `set` stops at an option that it refuses, and has carried out those in front of it. -/
def Stops (args : List String) (outcome : Outcome) (shell shell' : Shell) : Prop :=
  ∃ (settings : List Setting) (bad : BadSetting) (rest : List String), bad.IsRefused ∧
    args = settings.flatMap Setting.words ++ (bad.words ++ rest) ∧ outcome = bad.complaint ∧
    shell' = ask shell (settings.flatMap Setting.asked ++ bad.asked)

theorem Stops.bad {bad : BadSetting} (h : bad.IsRefused) (rest : List String) (shell : Shell) :
    Stops (bad.words ++ rest) bad.complaint shell (ask shell bad.asked) :=
  ⟨[], bad, rest, h, rfl, rfl, rfl⟩

theorem Stops.cons {setting : Setting} (h : Stops rest outcome (ask shell setting.asked) shell') :
    Stops (setting.words ++ rest) outcome shell shell' := by
  obtain ⟨settings, bad, rest, hbad, rfl, rfl, rfl⟩ := h
  refine ⟨setting :: settings, bad, rest, hbad, ?_, rfl, ?_⟩
  · rw [List.flatMap_cons, List.append_assoc]
  · rw [ask_append, List.flatMap_cons, List.append_assoc]

/-! ### One option -/

theorem settingsOf_eq_one {word : String} (hword : ¬(word = "-o" ∨ word = "+o"))
    (rest : List String) : settingsOf (word :: rest) = settingsOf.one word rest := by
  cases rest <;> rw [settingsOf, if_neg hword]

/-- A word that begins with a sign, unless it begins a long option or ends the options. -/
theorem settingsOf_letters {sign letter : Char} {letters : List Char}
    (hsign : sign = '-' ∨ sign = '+')
    (hword : String.ofList (sign :: letter :: letters) ∉ ["-o", "+o", "--"])
    (rest : List String) :
    settingsOf (String.ofList (sign :: letter :: letters) :: rest) = (do
      match ← setLetters sign (letter :: letters) with
      | some complaint => return complaint
      | none => settingsOf rest) := by
  obtain ⟨hminus, hplus, hend⟩ : String.ofList (sign :: letter :: letters) ≠ "-o" ∧
      String.ofList (sign :: letter :: letters) ≠ "+o" ∧
      String.ofList (sign :: letter :: letters) ≠ "--" := by simpa using hword
  rw [settingsOf_eq_one (not_or.mpr ⟨hminus, hplus⟩), settingsOf.one, if_neg hend,
    String.toList_ofList]
  exact if_pos hsign

theorem signOf_cases (on : Bool) : signOf on = '-' ∨ signOf on = '+' := by
  cases on
  · exact .inr rfl
  · exact .inl rfl

theorem decide_signOf (on : Bool) : decide (signOf on = '-') = on := by
  cases on <;> rfl

theorem setLetters_replicate (on : Bool) (count : Nat) (letters : List Char) (shell : Shell) :
    setLetters (signOf on) (List.replicate count 'u' ++ letters) shell =
      setLetters (signOf on) letters (ask shell (List.replicate count on)) := by
  induction count generalizing shell with
  | zero => rfl
  | succ count ih =>
      have hstep : setLetters (signOf on) ('u' :: (List.replicate count 'u' ++ letters)) shell =
          setLetters (signOf on) (List.replicate count 'u' ++ letters) (ask shell [on]) := by
        rw [setLetters, if_pos rfl, decide_signOf]
        rfl
      rw [List.replicate_succ, List.cons_append, hstep, ih, ask_append]
      rfl

/-- An option that is none of the refused ones is carried out. -/
theorem settingsOf_setting (setting : Setting) (rest : List String) (shell : Shell) :
    settingsOf (setting.words ++ rest) shell = settingsOf rest (ask shell setting.asked) := by
  cases setting with
  | short on more =>
      have hword : String.ofList (signOf on :: 'u' :: List.replicate more 'u') ∉
          ["-o", "+o", "--"] := by
        simp [← String.toList_inj]
      have hall := setLetters_replicate on (more + 1) [] shell
      rw [List.append_nil] at hall
      show settingsOf (String.ofList (signOf on :: 'u' :: List.replicate more 'u') :: rest) shell =
        _
      rw [settingsOf_letters (signOf_cases on) hword, bind_run, ← List.replicate_succ, hall]
      rfl
  | long on =>
      cases on
      · show settingsOf ("+o" :: "nounset" :: rest) shell = _
        rw [settingsOf, if_pos (.inr rfl), if_pos rfl]
        rfl
      · show settingsOf ("-o" :: "nounset" :: rest) shell = _
        rw [settingsOf, if_pos (.inl rfl), if_pos rfl]
        rfl

theorem settingsOf_badSetting {bad : BadSetting} (h : bad.IsRefused) (rest : List String)
    (shell : Shell) :
    settingsOf (bad.words ++ rest) shell = (.ok bad.complaint, ask shell bad.asked) := by
  cases bad with
  | short on before letter behind =>
      obtain ⟨hletter, hword⟩ := h
      have hstop (between : Shell) : setLetters (signOf on) (letter :: behind) between =
          (.ok (some (BadSetting.short on before letter behind).complaint), between) := by
        rw [setLetters, if_neg hletter]
        rfl
      obtain ⟨first, others, hlist⟩ :
          ∃ first others, List.replicate before 'u' ++ letter :: behind = first :: others :=
        List.exists_cons_of_ne_nil (by simp)
      rw [BadSetting.words, hlist, List.singleton_append]
      rw [hlist] at hword
      rw [settingsOf_letters (signOf_cases on) hword, bind_run, ← hlist, setLetters_replicate,
        hstop]
      rfl
  | long on option =>
      have hoption : option ≠ "nounset" := h
      cases on
      · show settingsOf ("+o" :: option :: rest) shell = _
        rw [settingsOf, if_pos (.inr rfl), if_neg hoption]
        rfl
      · show settingsOf ("-o" :: option :: rest) shell = _
        rw [settingsOf, if_pos (.inl rfl), if_neg hoption]
        rfl

/-! ### All options -/

/-- **`set` fails at an option that it refuses**, and has carried out those in front of it. -/
theorem settingsOf_of_refused (settings : List Setting) {bad : BadSetting} (h : bad.IsRefused)
    (rest : List String) (shell : Shell) :
    settingsOf (settings.flatMap Setting.words ++ (bad.words ++ rest)) shell =
      (.ok bad.complaint, ask shell (settings.flatMap Setting.asked ++ bad.asked)) := by
  induction settings generalizing shell with
  | nil => exact settingsOf_badSetting h rest shell
  | cons setting settings ih =>
      rw [List.flatMap_cons, List.append_assoc, settingsOf_setting, ih, ask_append,
        List.flatMap_cons, List.append_assoc]

/-- Letters are all the one that is an option, or go on with another one behind some of it. -/
theorem letters_cases (letters : List Char) : letters = List.replicate letters.length 'u' ∨
    ∃ before letter behind, letters = List.replicate before 'u' ++ letter :: behind ∧
      letter ≠ 'u' := by
  induction letters with
  | nil => exact .inl rfl
  | cons letter rest ih =>
      by_cases hletter : letter = 'u'
      · subst hletter
        obtain hall | ⟨before, letter, behind, hrest, hletter⟩ := ih
        · exact .inl (congrArg _ hall)
        · exact .inr ⟨before + 1, letter, behind, congrArg _ hrest, hletter⟩
      · exact .inr ⟨0, letter, rest, rfl, hletter⟩

/-- The signs of option words. -/
theorem exists_signOf {sign : Char} (h : sign = '-' ∨ sign = '+') : ∃ on, sign = signOf on := by
  rcases h with rfl | rfl
  · exact ⟨true, rfl⟩
  · exact ⟨false, rfl⟩

/-- A word of letters behind a sign is an option, or one that is refused. -/
theorem letterWord_cases {sign letter : Char} {letters : List Char}
    (hsign : sign = '-' ∨ sign = '+')
    (hword : String.ofList (sign :: letter :: letters) ∉ ["-o", "+o", "--"]) :
    (∃ setting, [String.ofList (sign :: letter :: letters)] = Setting.words setting) ∨
      ∃ bad, BadSetting.IsRefused bad ∧
        [String.ofList (sign :: letter :: letters)] = bad.words := by
  obtain ⟨on, rfl⟩ := exists_signOf hsign
  obtain hall | ⟨before, bad, behind, hlist, hbad⟩ := letters_cases (letter :: letters)
  · refine .inl ⟨.short on letters.length, ?_⟩
    rw [hall]
    rfl
  · rw [hlist] at hword ⊢
    exact .inr ⟨.short on before bad behind, ⟨hbad, hword⟩, rfl⟩

/-- There is no complaint about the words. -/
def Settles (args : List String) : Prop :=
  ∀ {shell shell' : Shell} {outcome : Outcome}, settingsOf args shell = (.ok outcome, shell') →
    outcome.exitCode = 0

/-- Words without options in front of them are parameters. -/
theorem settles_of_one {word : String} {rest args : List String}
    (hlong : ¬(word = "-o" ∨ word = "+o")) (h : settingsOf.one word rest = setPositional args) :
    Settles (word :: rest) := by
  intro shell shell' outcome hrun
  rw [settingsOf_eq_one hlong, h] at hrun
  cases hrun
  rfl

/-- A word that is no long option, and the words behind it. -/
theorem word_cases {word : String} (hlong : ¬(word = "-o" ∨ word = "+o")) (rest : List String) :
    (∃ setting rest', word :: rest = Setting.words setting ++ rest') ∨
      (∃ bad rest', BadSetting.IsRefused bad ∧ word :: rest = bad.words ++ rest') ∨
      Settles (word :: rest) := by
  by_cases hend : word = "--"
  · exact .inr (.inr (settles_of_one hlong (by rw [settingsOf.one, if_pos hend])))
  · match hlist : word.toList with
    | [] => exact .inr (.inr (settles_of_one hlong (by rw [settingsOf.one, if_neg hend, hlist])))
    | [_] => exact .inr (.inr (settles_of_one hlong (by rw [settingsOf.one, if_neg hend, hlist])))
    | sign :: letter :: letters =>
        by_cases hsign : sign = '-' ∨ sign = '+'
        · obtain rfl : word = String.ofList (sign :: letter :: letters) := by
            rw [← hlist, String.ofList_toList]
          have hword : String.ofList (sign :: letter :: letters) ∉ ["-o", "+o", "--"] := by
            simpa [and_assoc] using And.intro (not_or.mp hlong) hend
          obtain ⟨setting, hwords⟩ | ⟨bad, hbad, hwords⟩ := letterWord_cases hsign hword
          · exact .inl ⟨setting, rest, congrArg (· ++ rest) hwords⟩
          · exact .inr (.inl ⟨bad, rest, hbad, congrArg (· ++ rest) hwords⟩)
        · have hone : settingsOf.one word rest = setPositional (word :: rest) := by
            rw [settingsOf.one, if_neg hend, hlist]
            exact if_neg hsign
          exact .inr (.inr (settles_of_one hlong hone))

/-- The words begin with an option or with one that is refused, if they are not all settled. -/
theorem args_cases (args : List String) :
    (∃ setting rest, args = Setting.words setting ++ rest) ∨
      (∃ bad rest, BadSetting.IsRefused bad ∧ args = bad.words ++ rest) ∨ Settles args := by
  cases args with
  | nil =>
      refine .inr (.inr fun h => ?_)
      rw [settingsOf] at h
      cases h
      rfl
  | cons word rest =>
      by_cases hlong : word = "-o" ∨ word = "+o"
      · obtain ⟨on, rfl⟩ : ∃ on, word = String.ofList [signOf on, 'o'] := by
          rcases hlong with rfl | rfl
          · exact ⟨true, rfl⟩
          · exact ⟨false, rfl⟩
        cases rest with
        | nil =>
            refine .inr (.inr fun h => ?_)
            rw [settingsOf, if_pos hlong] at h
            cases h
            rfl
        | cons option rest =>
            by_cases hoption : option = "nounset"
            · subst hoption
              exact .inl ⟨.long on, rest, rfl⟩
            · exact .inr (.inl ⟨.long on option, rest, hoption, rfl⟩)
      · exact word_cases hlong rest

/-- A `set` that fails stops at an option that it refuses. -/
theorem stops_of_settingsOf {args : List String} {shell : Shell}
    (h : settingsOf args shell = (.ok outcome, shell')) (hcode : outcome.exitCode ≠ 0) :
    Stops args outcome shell shell' := by
  obtain ⟨setting, rest, rfl⟩ | ⟨bad, rest, hbad, rfl⟩ | hsettles := args_cases args
  · have hshorter : rest.length < (setting.words ++ rest).length := by
      rw [List.length_append]
      cases setting <;> simp [Setting.words]
    rw [settingsOf_setting] at h
    exact .cons (stops_of_settingsOf h hcode)
  · rw [settingsOf_badSetting hbad] at h
    cases h
    exact .bad hbad rest shell
  · exact absurd (hsettles h) hcode
termination_by args.length

/-- The variables are listed, or one of them holds an index that cannot be. -/
theorem exitCode_of_listing {deeper : Evaluators}
    (h : Command.settings.run deeper [] shell = (.ok outcome, shell')) : outcome.exitCode = 0 := by
  have hrun : Command.settings.run deeper [] shell = (listAssignments shell.store, shell) :=
    ofExcept_run (listAssignments shell.store) shell
  rw [hrun] at h
  obtain ⟨-, -, hlisted⟩ := exists_of_bind_eq_ok (Prod.mk.inj h).1
  cases hlisted
  rfl

/-- **A failing `set` keeps the parameters, and has carried out the options in front of the first
one that it refuses.**  The variables and the positional parameters of every frame are as before.
The last of the options that were carried out says whether unset parameters are errors, and the
whole shell is as before exactly if they were so already. -/
theorem settings_refused {deeper : Evaluators}
    (h : Command.settings.run deeper args shell = (.ok outcome, shell'))
    (hcode : outcome.exitCode ≠ 0) :
    ∃ (settings : List Setting) (bad : BadSetting) (rest : List String), bad.IsRefused ∧
      args = settings.flatMap Setting.words ++ (bad.words ++ rest) ∧ outcome = bad.complaint ∧
      shell'.store = shell.store ∧
      shell' = ask shell (settings.flatMap Setting.asked ++ bad.asked) ∧
      (shell' = shell ↔ ∀ state ∈ (settings.flatMap Setting.asked ++ bad.asked).getLast?,
        state = shell.nounset) := by
  have hrun : settingsOf args shell = (.ok outcome, shell') := by
    cases args with
    | nil => exact absurd (exitCode_of_listing h) hcode
    | cons word rest => exact h
  obtain ⟨settings, bad, rest, hbad, hargs, houtcome, hshell⟩ := stops_of_settingsOf hrun hcode
  refine ⟨settings, bad, rest, hbad, hargs, houtcome, by rw [hshell]; rfl, hshell, ?_⟩
  rw [hshell, ask]
  obtain ⟨store, nounset, scriptName, arithDepth⟩ := shell
  cases (settings.flatMap Setting.asked ++ bad.asked).getLast? <;> simp

/-- The option is turned off and on again in front of a letter that is refused, so that all is as
before, the parameters of a call and those outside of it included. -/
theorem settings_refused_turnedBack :
    let shell : Shell := ⟨⟨[⟨"f", ["1", "2"], Table.empty⟩], ⟨"global", ["a"], Table.empty⟩,
      .standard⟩, true, "script", 0⟩
    let args := ["+u", "-o", "nounset", "-uz", "--", "3"]
    ∃ outcome shell', Command.settings.run .exhausted args shell = (.ok outcome, shell') ∧
      outcome.exitCode = 2 ∧ shell'.store = shell.store ∧ shell'.nounset = true := by
  intro shell args
  have hz : (BadSetting.short true 1 'z' []).IsRefused := ⟨by decide, by decide⟩
  have hrun : Command.settings.run .exhausted args shell =
      (.ok (.complaint "set" "-z: invalid option" 2), shell) :=
    settingsOf_of_refused [.short false 0, .long true] hz ["--", "3"] shell
  obtain ⟨-, -, -, -, -, -, hstore, -⟩ := settings_refused hrun (by decide)
  exact ⟨_, _, hrun, rfl, hstore, rfl⟩

/-- **An option in front of one that is refused stays carried out.** -/
theorem settings_carried_out_before_refusal :
    let shell : Shell := ⟨.new .standard, false, "bash", 0⟩
    Command.settings.run .exhausted ["-u", "-z"] shell =
      (.ok (.complaint "set" "-z: invalid option" 2), { shell with nounset := true }) := by
  intro shell
  have hz : (BadSetting.short true 0 'z' []).IsRefused := ⟨by decide, by decide⟩
  exact settingsOf_of_refused [.short true 0] hz [] shell

end ShellExpansion.Builtin
