import ShellExpansion.Proofs.Parameter.Name
import ShellExpansion.Proofs.Session.Running
import ShellExpansion.Proofs.Word.Pieces

/-! # Parameter expansions that stand alone

A text that is one parameter expansion is read in two ways: as a whole, when it is expanded to its
words (`loneParameter?`), and by the scanner of words, when it is expanded to one text (`pieces`).
The text is the words in a row, with the same effects and the same errors, for the expansions that
both read alike (`IsLone`, `run_word_of_isLone`).  They do not read alike an expansion in braces
around another one, which is malformed as a whole while the scanner drops the outer braces
(`Evaluators.expand_nested`), and a name with a line end behind it, which the scanner does not count
to the name (`Evaluators.expand_lineEnd`). -/

namespace ShellExpansion

open Lexical

/-- A text that is one parameter expansion: in braces that are closed at its end and do not enclose
another pair with a dollar sign, or a name with no line end behind it, or a short name. -/
inductive IsLone : String → Prop
  | braced {inside : String} (hcloses : Closes '\x7b' '\x7d' inside.toList)
      (hinner : Parameter.inner inside.toList = inside.toList) :
      IsLone ("$\x7b" ++ inside ++ "\x7d")
  | named {name : String} (hname : IsPlainName name) : IsLone ("$" ++ name)
  | short {c : Char} (hc : c ∈ "@*#0123456789".toList) : IsLone ("$" ++ String.singleton c)

/-- The reply with its words in a row. -/
def Reply.joined : Reply → Reply
  | texts words => text (some (" ".intercalate words))
  | reply => reply

/-! ### Pieces of a lone expansion -/

namespace Word

/-- What follows a name is not read with it. -/
theorem named_plainName {name : String} (h : IsPlainName name) {back : List Char}
    (hback : back = [] ∨ back = ['\n']) :
    named (name.toList ++ back) = (.named name, back) := by
  obtain ⟨c, rest, hname, hc, hrest⟩ := h.exists_cons
  have hparts : ∀ d ∈ rest, isNamePart d = true := fun d hd =>
    isAlphanumeric_of_isNameChar (hrest d hd)
  have hline : isNamePart '\n' = false := by
    rw [isNamePart, Text.isAlphanumeric_of_ascii (by decide)]
    decide
  have htake : (rest ++ back).takeWhile isNamePart = rest := by
    rw [List.takeWhile_append_of_pos hparts]
    rcases hback with rfl | rfl <;> simp [hline]
  have hdrop : (rest ++ back).dropWhile isNamePart = back := by
    rw [List.dropWhile_append_of_pos hparts]
    rcases hback with rfl | rfl <;> simp [hline]
  rw [hname, List.cons_append, named, if_pos (isLetter_of_isNameStart hc), htake, hdrop, ← hname,
    String.ofList_toList]

theorem dollar_plainName {name : String} (h : IsPlainName name) {back : List Char}
    (hback : back = [] ∨ back = ['\n']) :
    dollar (name.toList ++ back) = (.named name, back) := by
  rw [← named_plainName h hback]
  obtain ⟨c, rest, hname, hc, -⟩ := h.exists_cons
  rw [hname, List.cons_append]
  unfold dollar
  split
  · next heq =>
      obtain ⟨rfl, -⟩ := List.cons.inj heq
      exact absurd hc (by decide)
  · next heq =>
      obtain ⟨rfl, -⟩ := List.cons.inj heq
      exact absurd hc (by decide)
  · rfl

theorem dollar_short {c : Char} (hc : c ∈ "@*#0123456789".toList) :
    dollar [c] = (.named (String.singleton c), []) := by
  have hall : ("@*#0123456789".toList.all fun c =>
      dollar [c] = (.named (String.singleton c), [])) = true := by decide +kernel
  exact of_decide_eq_true (List.all_eq_true.mp hall c hc)

end Word

/-! ### Both readings -/

namespace Parameter

theorem parse_eq (text : String) : parse text = (content? (inner text.toList)).elim
    (.error (.substitution (.malformed (String.ofList (inner text.toList))))) .ok := by
  unfold parse
  dsimp only
  cases content? (inner text.toList) <;> rfl

/-- Braces are taken off only where there is another pair. -/
theorem inner_cases (cs : List Char) :
    inner cs = cs ∨ ∃ body, cs = '$' :: '\x7b' :: (body ++ ['\x7d']) := by
  unfold inner
  split
  · next rest =>
      split
      · next body hrest =>
          refine .inr ⟨body.reverse, ?_⟩
          rw [← List.reverse_cons, ← hrest, List.reverse_reverse]
      · exact .inl rfl
  · exact .inl rfl

/-- An expansion in braces is no parameter of another one. -/
theorem content?_braced (body : List Char) :
    content? ('$' :: '\x7b' :: (body ++ ['\x7d'])) = none := by
  have hspecial : name? ('$' :: '\x7b' :: (body ++ ['\x7d'])) =
      some (String.ofList ['$'], none, '\x7b' :: (body ++ ['\x7d'])) := by
    unfold name?
    rfl
  have hoperation : operation? ('\x7b' :: (body ++ ['\x7d'])) = none := by
    simp [operation?, missingAction?]
  have hnamed : content? ('$' :: '\x7b' :: (body ++ ['\x7d'])) =
      named? false ('$' :: '\x7b' :: (body ++ ['\x7d'])) := by
    simp [content?]
  rw [hnamed, named?, hspecial]
  dsimp only
  rw [hoperation]
  rfl

end Parameter

namespace Evaluators

open Eval Word

variable (deeper : Evaluators)

theorem expandWord_dollar {text : String} {form : Dollar} (h : pieces text = [.dollar form]) :
    deeper.expandWord .text text = deeper.expandDollar form := by
  have hempty (expanded : String) : expanded ++ "" = expanded := String.append_empty
  show expandEach (deeper.expandPiece .text) (pieces text) = _
  rw [h, expandEach, expandEach, expandPiece]
  simp only [pure_bind, hempty, bind_pure]

/-- The text of a parameter that was read, or the error that kept it from being read. -/
def expandParsed : Except Error Parameter → Eval String
  | .ok parameter => deeper.expandToText parameter
  | .error e => refuse e

theorem expandDollar_braced (content : String) :
    deeper.expandDollar (.braced content) = deeper.expandParsed (Parameter.parse content) := by
  funext shell
  rw [expandDollar, bind_run, query_run]
  cases Parameter.parse content <;> rfl

theorem toList_braced (inside : String) : ("$\x7b" ++ inside ++ "\x7d").toList =
    '$' :: '\x7b' :: (inside.toList ++ ['\x7d']) := by
  simp

theorem toList_dollar (name : String) : ("$" ++ name).toList = '$' :: name.toList := by
  simp

theorem pieces_plainName {name : String} (h : IsPlainName name) :
    pieces ("$" ++ name) = [.dollar (.named name)] := by
  have hdollar := dollar_plainName h (.inl rfl)
  rw [List.append_nil] at hdollar
  rw [pieces, toList_dollar, piecesList_dollar, hdollar, piecesList]

/-- The scanner reads an expansion in braces by what stands between them. -/
theorem expandWord_braced {inside : String} (hcloses : Closes '\x7b' '\x7d' inside.toList) :
    deeper.expandWord .text ("$\x7b" ++ inside ++ "\x7d") =
      deeper.expandParsed (Parameter.parse inside) := by
  have hpieces : pieces ("$\x7b" ++ inside ++ "\x7d") = [.dollar (.braced inside)] := by
    rw [pieces, toList_braced, piecesList_dollar, dollar_braced hcloses, String.ofList_toList,
      piecesList]
  rw [deeper.expandWord_dollar hpieces, expandDollar_braced]

/-- A parameter that a whole text is read as is expanded to its words. -/
theorem joined_expand {text : String} {parsed : Except Error Parameter}
    (h : loneParameter? text = some parsed) :
    (do return " ".intercalate (← deeper.expand text)) = deeper.expandParsed parsed := by
  unfold expand
  rw [h]
  cases parsed <;> rfl

/-- A line end may stand behind a name. -/
theorem isIdentifier_lineEnd {name : String} (h : IsPlainName name) :
    isIdentifier (name ++ "\n") = true := by
  have hends : ∀ {cs : List Char}, (∀ c ∈ cs, isNameChar c = true) →
      endsName (cs ++ ['\n']) = true := by
    intro cs
    induction cs with
    | nil => exact fun _ => rfl
    | cons c cs ih =>
        intro hcs
        obtain ⟨hc, hrest⟩ := List.forall_mem_cons.mp hcs
        have hcons : endsName (c :: (cs ++ ['\n'])) =
            (isNameChar c && endsName (cs ++ ['\n'])) := by
          cases cs <;> rfl
        rw [List.cons_append, hcons, hc, ih hrest]
        rfl
  obtain ⟨c, rest, hname, hc, hrest⟩ := h.exists_cons
  have htext : (name ++ "\n").toList = c :: (rest ++ ['\n']) := by
    rw [String.toList_append, hname]
    rfl
  have hne : (name ++ "\n" != "_") = true := by
    rw [bne_iff_ne, ne_eq, ← String.toList_inj, htext]
    simp
  unfold isIdentifier
  rw [htext]
  dsimp only
  rw [hc, hends hrest, hne]
  rfl

/-- A name behind a dollar sign is read as a whole, with the line end that may follow it. -/
theorem loneParameter?_named {name : String} (h : isIdentifier name = true) :
    loneParameter? ("$" ++ name) = some (.ok (Parameter.ofName name)) := by
  obtain ⟨c, rest, back, hname, hc, -⟩ := exists_of_isIdentifier h
  have hbrace : c ≠ '\x7b' := by
    rintro rfl
    exact absurd hc (by decide)
  have hbare : withoutQuotes ("$" ++ name).toList = '$' :: name.toList := by
    rw [String.toList_append]
    rfl
  unfold loneParameter?
  rw [hbare]
  dsimp only
  split
  · next heq =>
      rw [hname] at heq
      exact absurd (List.cons.inj (List.cons.inj heq).2).1 hbrace
  · next heq =>
      obtain rfl := (List.cons.inj heq).2
      rw [String.ofList_toList, h, Bool.true_or, if_pos rfl]
  · next hne => exact absurd rfl (hne name.toList)

theorem loneParameter?_short {c : Char} (hc : c ∈ "@*#0123456789".toList) :
    loneParameter? ("$" ++ String.singleton c) =
      some (.ok (Parameter.ofName (String.singleton c))) := by
  have hall : ("@*#0123456789".toList.all fun c => loneParameter? ("$" ++ String.singleton c) =
      some (.ok (Parameter.ofName (String.singleton c)))) = true := by decide +kernel
  exact of_decide_eq_true (List.all_eq_true.mp hall c hc)

/-- **The two readings of a lone expansion agree.** -/
theorem expandWord_of_isLone {text : String} (h : IsLone text) :
    deeper.expandWord .text text = (do return " ".intercalate (← deeper.expand text)) := by
  cases h with
  | @braced inside hcloses hinner =>
      have hparse : Parameter.parse inside = (Parameter.content? inside.toList).elim
          (.error (.substitution (.malformed inside))) .ok := by
        rw [Parameter.parse_eq, hinner, String.ofList_toList]
      rw [deeper.expandWord_braced hcloses, hparse]
      exact (deeper.joined_expand (loneParameter?_valueText hcloses)).symm
  | @named name hname =>
      rw [deeper.expandWord_dollar (pieces_plainName hname),
        deeper.joined_expand (loneParameter?_named hname.identifier)]
      rfl
  | @short c hc =>
      have hpieces : pieces ("$" ++ String.singleton c) =
          [.dollar (.named (String.singleton c))] := by
        rw [pieces, toList_dollar, String.toList_singleton, piecesList_dollar, dollar_short hc,
          piecesList]
      rw [deeper.expandWord_dollar hpieces, deeper.joined_expand (loneParameter?_short hc)]
      rfl

theorem mem_of_isShort {c : Char}
    (h : (c.isDigit || c == '@' || c == '*' || c == '#') = true) :
    c ∈ "@*#0123456789".toList := by
  have hdigits : ∀ n < 58, (Char.ofNat n).isDigit = true →
      Char.ofNat n ∈ "@*#0123456789".toList := by decide
  simp only [Bool.or_eq_true, beq_iff_eq] at h
  rcases h with ((h | rfl) | rfl) | rfl
  · have hlt : c.toNat < 58 := Nat.lt_succ_of_le (Char.isDigit_iff_toNat.mp h).2
    have hmem := hdigits c.toNat hlt
    rw [Char.ofNat_toNat] at hmem
    exact hmem h
  all_goals decide

/-- A name that does not end with a line end has none. -/
theorem isPlainName_of_getLast? {name : String} (h : isIdentifier name = true)
    (hline : name.toList.getLast? ≠ some '\n') : IsPlainName name := by
  refine ⟨h, ?_⟩
  obtain ⟨c, rest, back, hname, hc, hrest, rfl | rfl⟩ := exists_of_isIdentifier h
  · have hchars : ∀ d ∈ name.toList, isNameChar d = true := by
      rw [hname, List.append_nil]
      exact List.forall_mem_cons.mpr ⟨isNameChar_of_isNameStart hc, hrest⟩
    exact fun hmem => absurd (hchars _ hmem) (by decide)
  · rw [hname, ← List.cons_append, List.getLast?_append] at hline
    exact absurd rfl hline

/-- What stands in braces up to the end of a text is lone, unless it is in braces itself. -/
theorem isLone_braced {text : String} {inside : List Char}
    (htext : text.toList = '$' :: '\x7b' :: (inside ++ ['\x7d']))
    (hcloses : Closes '\x7b' '\x7d' inside)
    (hnested : ∀ body, text ≠ "$\x7b" ++ ("$\x7b" ++ body ++ "\x7d") ++ "\x7d") : IsLone text := by
  have hbraced : text = "$\x7b" ++ String.ofList inside ++ "\x7d" := by
    rw [← String.toList_inj, htext, toList_braced, String.toList_ofList]
  have hinside : Closes '\x7b' '\x7d' (String.ofList inside).toList := by
    rwa [String.toList_ofList]
  rw [hbraced]
  refine .braced hinside ((Parameter.inner_cases _).resolve_right ?_)
  rintro ⟨body, hbody⟩
  refine hnested (String.ofList body) ?_
  rw [hbraced, ← String.toList_inj, toList_braced, toList_braced, toList_braced, hbody,
    String.toList_ofList]

/-- A name behind a dollar sign is lone, unless it ends with a line end. -/
theorem isLone_named {text : String} {rest : List Char} (htext : text.toList = '$' :: rest)
    (hname : isIdentifier (String.ofList rest) = true)
    (hline : text.toList.getLast? ≠ some '\n') : IsLone text := by
  have hdollar : text = "$" ++ String.ofList rest := by
    rw [← String.toList_inj, htext, toList_dollar, String.toList_ofList]
  rw [hdollar]
  refine .named (isPlainName_of_getLast? hname fun hlast => hline ?_)
  rw [String.toList_ofList] at hlast
  rw [htext, List.getLast?_cons, hlast]
  rfl

/-- A text with a dollar sign in front that is read as a whole is a lone expansion, but for braces
in braces and for line ends behind names. -/
theorem isLone_of_loneParameter? {text : String} (hdollar : text.toList.head? = some '$')
    (hlone : (loneParameter? text).isSome = true)
    (hnested : ∀ body, text ≠ "$\x7b" ++ ("$\x7b" ++ body ++ "\x7d") ++ "\x7d")
    (hline : text.toList.getLast? ≠ some '\n') : IsLone text := by
  obtain ⟨rest, htext⟩ : ∃ rest, text.toList = '$' :: rest := by
    cases h : text.toList with
    | nil =>
        rw [h] at hdollar
        cases hdollar
    | cons c rest =>
        rw [h] at hdollar
        cases hdollar
        exact ⟨rest, rfl⟩
  have hbare : withoutQuotes text.toList = '$' :: rest := by
    rw [htext]
    rfl
  unfold loneParameter? at hlone
  rw [hbare] at hlone
  dsimp only at hlone
  split at hlone
  · next after heq =>
      cases heq
      split at hlone
      · next inside hclosing =>
          obtain rfl := eq_append_of_splitClosing? hclosing
          exact isLone_braced htext hclosing hnested
      · cases hlone
  · next heq =>
      cases heq
      cases hidentifier : isIdentifier (String.ofList rest) with
      | true => exact isLone_named htext hidentifier hline
      | false =>
          rw [hidentifier, Bool.false_or] at hlone
          split at hlone
          · next c _ =>
              split at hlone
              · next hshort =>
                  obtain rfl : text = "$" ++ String.singleton c := by
                    rw [← String.toList_inj, htext, toList_dollar, String.toList_singleton]
                  exact .short (mem_of_isShort hshort)
              · cases hlone
          · cases hlone
  · cases hlone

/-! ### Where the readings differ -/

/-- **Braces around an expansion in braces** are refused where the text is read as a whole, while
the scanner expands the text between them. -/
theorem expand_nested {body : String} (hcloses : Closes '\x7b' '\x7d' body.toList)
    (houter : Closes '\x7b' '\x7d' ("$\x7b" ++ body ++ "\x7d").toList) :
    deeper.expand ("$\x7b" ++ ("$\x7b" ++ body ++ "\x7d") ++ "\x7d") =
        refuse (.substitution (.malformed ("$\x7b" ++ body ++ "\x7d"))) ∧
      deeper.expandWord .text ("$\x7b" ++ ("$\x7b" ++ body ++ "\x7d") ++ "\x7d") =
        (do return " ".intercalate (← deeper.expand ("$\x7b" ++ body ++ "\x7d"))) := by
  have hlone := loneParameter?_valueText houter
  rw [toList_braced, Parameter.content?_braced, Option.elim_none] at hlone
  have hinner : Parameter.inner ("$\x7b" ++ body ++ "\x7d").toList = body.toList := by
    simp [Parameter.inner]
  have hparse : Parameter.parse ("$\x7b" ++ body ++ "\x7d") =
      (Parameter.content? body.toList).elim (.error (.substitution (.malformed body))) .ok := by
    rw [Parameter.parse_eq, hinner, String.ofList_toList]
  constructor
  · show deeper.expand (valueText _) = _
    rw [expand, hlone]
  · rw [deeper.expandWord_braced houter, hparse]
    exact (deeper.joined_expand (loneParameter?_valueText hcloses)).symm

/-- **A line end behind a name** belongs to the name where the text is read as a whole, while the
scanner leaves it behind the value. -/
theorem expand_lineEnd {name : String} (hname : IsPlainName name) :
    deeper.expand ("$" ++ (name ++ "\n")) =
        deeper.expandParameter (Parameter.ofName (name ++ "\n")) ∧
      deeper.expandWord .text ("$" ++ (name ++ "\n")) =
        (do return (← deeper.expandWord .text ("$" ++ name)) ++ "\n") := by
  have hlone := loneParameter?_named (isIdentifier_lineEnd hname)
  have htext : ("$" ++ (name ++ "\n")).toList = '$' :: (name.toList ++ ['\n']) := by
    simp
  have hpieces : pieces ("$" ++ (name ++ "\n")) = [.dollar (.named name), .char '\n'] := by
    rw [pieces, htext, piecesList_dollar, dollar_plainName hname (.inr rfl), piecesList,
      piecesList] <;> simp
  have hempty : String.ofList ['\n'] ++ "" = "\n" := String.append_empty
  constructor
  · rw [expand, hlone]
  · rw [deeper.expandWord_dollar (pieces_plainName hname)]
    show expandEach (deeper.expandPiece .text) (pieces _) = _
    rw [hpieces, expandEach, expandEach, expandEach, expandPiece, expandPiece]
    simp only [pure_bind, hempty]

end Evaluators

/-! ### Runs -/

namespace Action

open Eval

/-- **The text of a lone expansion is its words in a row**: for every text that begins with a dollar
sign and is read as one parameter expansion, and whatever the shell is, its expansion to one text
has the words of its expansion with single spaces between them, or fails with the same error, and
the shell afterwards is the same; unless the text is an expansion in braces around another one, or
ends with a line end. -/
theorem run_word_of_lone {text : String} (hdollar : text.toList.head? = some '$')
    (hlone : (Evaluators.loneParameter? text).isSome = true)
    (hnested : ∀ body, text ≠ "$\x7b" ++ ("$\x7b" ++ body ++ "\x7d") ++ "\x7d")
    (hline : text.toList.getLast? ≠ some '\n') (shell : Shell) :
    (Action.word .text text).run shell =
      (((Action.expand text).run shell).1.map Reply.joined,
        ((Action.expand text).run shell).2) := by
  have hword := (evaluators shell.store.limits.nesting).expandWord_of_isLone
    (Evaluators.isLone_of_loneParameter? hdollar hlone hnested hline)
  rw [run_word, run_expand, hword, bind_run, bind_run, bind_run]
  cases (evaluators shell.store.limits.nesting).expand text shell with
  | mk result shell' => cases result <;> rfl

/-- The positional parameters of a call in a row. -/
theorem run_word_of_lone_positional :
    let shell : Shell := ⟨⟨[⟨"f", ["a b", "c"], Table.empty⟩], ⟨"global", [], Table.empty⟩,
      .standard⟩, true, "script", 0⟩
    let text := "$\x7b@\x7d"
    text.toList.head? = some '$' ∧ (Evaluators.loneParameter? text).isSome = true ∧
      (∀ body, text ≠ "$\x7b" ++ ("$\x7b" ++ body ++ "\x7d") ++ "\x7d") ∧
      text.toList.getLast? ≠ some '\n' ∧
      (Action.expand text).run shell = (.ok (.texts ["a b", "c"]), shell) ∧
      (Action.word .text text).run shell = (.ok (.text (some "a b c")), shell) := by
  intro shell text
  have hdollar : text.toList.head? = some '$' := by decide
  have hlone : (Evaluators.loneParameter? text).isSome = true := by decide +kernel
  have hnested (body : String) :
      text ≠ "$\x7b" ++ ("$\x7b" ++ body ++ "\x7d") ++ "\x7d" := by
    intro heq
    have hthird := congrArg (fun text : String => text.toList[2]?) heq
    simp [text] at hthird
  have hline : text.toList.getLast? ≠ some '\n' := by decide
  have hexpand : (Action.expand text).run shell = (.ok (.texts ["a b", "c"]), shell) := by
    have hwords : (evaluators shell.store.limits.nesting).expand text shell =
        (.ok ["a b", "c"], shell) := by
      show (_ : Except Fault (List String) × Shell) = _
      decide +kernel
    rw [run_expand]
    exact bind_run_of_ok hwords
  have hword := run_word_of_lone hdollar hlone hnested hline shell
  rw [hexpand] at hword
  exact ⟨hdollar, hlone, hnested, hline, hexpand, hword⟩

/-- **Braces in braces are expanded in a word**, and refused where they stand alone. -/
theorem run_word_of_lone_nested :
    let x : Binding := ⟨.scalar "5", .none, 0⟩
    let shell : Shell :=
      ⟨⟨[], ⟨"global", [], Table.empty.insert "x" x⟩, .standard⟩, false, "script", 0⟩
    let text := "$\x7b$\x7bx\x7d\x7d"
    (Evaluators.loneParameter? text).isSome = true ∧
      (Action.expand text).run shell =
        (.error (.error (.substitution (.malformed "$\x7bx\x7d"))), shell) ∧
      (Action.word .text text).run shell = (.ok (.text (some "5")), shell) := by
  intro x shell text
  have hexpanded : (evaluators shell.store.limits.nesting).expandWord .text text shell =
      (.ok "5", shell) := by
    show (_ : Except Fault String × Shell) = _
    decide +kernel
  have hrefused : (evaluators shell.store.limits.nesting).expand text shell =
      (.error (.error (.substitution (.malformed "$\x7bx\x7d"))), shell) := by
    show (_ : Except Fault (List String) × Shell) = _
    decide +kernel
  refine ⟨by decide +kernel, ?_, ?_⟩
  · rw [run_expand]
    exact bind_run_of_error hrefused
  · rw [run_word]
    exact bind_run_of_ok hexpanded

end Action

end ShellExpansion
