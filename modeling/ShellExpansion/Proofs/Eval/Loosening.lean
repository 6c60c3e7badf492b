import ShellExpansion.Eval.Selection
import ShellExpansion.Proofs.Arith.Constant
import ShellExpansion.Proofs.Eval.Guards

/-! # Looser guards

Evaluators that succeed on the next nesting level with looser guards, too, make evaluations that do
(`Evaluators.Lift`).  Nothing that is evaluated catches the error of a guard: the one error that is
not passed on is that a text is no expression, and this no guard decides.  So more nesting levels
and looser guards keep every result (`evaluators_lift`). -/

namespace ShellExpansion

/-- What the first evaluators give under the strict guards, the others give under the loose ones, or
they lose it.  The source of an expression is shown by errors only, and does not matter to what is
given. -/
structure Evaluators.Lift (strict loose : Guards) (lost : Fault → Prop) (first other : Evaluators) :
    Prop where
  guards : Guards.WithinUpTo lost strict loose
  word : ∀ mode text, Eval.Lifts strict loose lost (first.word mode text) (other.word mode text)
  expression : ∀ source source' expr,
    Eval.Lifts strict loose lost (first.expression source expr) (other.expression source' expr)

namespace Evaluators.Lift

open Eval

variable {strict loose : Guards} {lost : Fault → Prop} {first other : Evaluators}
  (h : Lift strict loose lost first other)

/-! ### Elements -/

section elements

include h

theorem evaluate (text : String) :
    Lifts strict loose lost (first.evaluate text) (other.evaluate text) := by
  unfold Evaluators.evaluate
  cases Arith.parse text with
  | ok expr => exact h.expression text text expr
  | error fault => exact .throw fault _

/-- A value that is too deep for the loose guards is too deep for the strict ones, and a value that
is no expression is zero for both. -/
theorem valueOf (source source' : String) (value : Option String) :
    Lifts strict loose lost (first.valueOf source value) (other.valueOf source' value) := by
  cases value with
  | none => exact .pure 0
  | some text =>
      have hdepth := h.guards.arithmeticDepth
      unfold Evaluators.valueOf
      refine .ite (.pure 0) ?_
      dsimp only
      cases plainNumber? (Text.strip text) with
      | some number =>
          dsimp only
          cases hconstant : Arith.constant (shownSource source (Text.strip text)) number.2 with
          | ok n =>
              rw [Arith.constant_eq_ok hconstant _]
              exact .pure _
          | error fault => exact .throw fault _
      | none =>
          refine .oneDeeper (.limits_bind (.get_bind fun shell =>
            .guard (fun hdeep => Int.lt_of_le_of_lt hdepth hdeep) (.refuse _) ?_))
          split
          · exact h.expression _ _ _
          · exact .pure 0
          · exact .throw _ _

theorem index (name subscript : String) :
    Lifts strict loose lost (first.index name subscript) (other.index name subscript) :=
  .ite (.refuse _ _) (h.evaluate subscript)

theorem elementKey (name subscript : String) :
    Lifts strict loose lost (first.elementKey name subscript) (other.elementKey name subscript) :=
  .bind (lifts_isAssociative h.guards name) fun _ =>
    .ite (.bind (h.word .text subscript) fun _ => .pure _)
      (.bind (h.index name subscript) fun _ => .pure _)

theorem stored (integer : Bool) (value : String) (old : Option String) :
    Lifts strict loose lost (first.stored integer value old) (other.stored integer value old) := by
  refine .ite (.either (.pure 0) (h.evaluate value) fun n => ?_) (.pure _)
  cases old with
  | none => exact .pure _
  | some text => exact .bind (h.valueOf "" "" (some text)) fun _ => .pure _

omit h in
theorem putElement (place : Store.Place) (begun : Binding) (update : Value → Value) :
    Lifts strict loose lost (Evaluators.putElement place begun update)
      (Evaluators.putElement place begun update) := by
  refine .store_bind fun s => ?_
  rw [Store.get_under, Store.get_under]
  refine .ite (.store_bind fun s => ?_) (.pure _)
  rw [Store.putValue_under, Store.putValue_under]
  exact .setStore _

omit h in
theorem putArray (place : Store.Place) (value : Value) :
    Lifts strict loose lost (Evaluators.putArray place value)
      (Evaluators.putArray place value) := by
  refine .store_bind fun s => .store_bind fun s' => ?_
  rw [Store.get_under, Store.get_under, Store.put_under, Store.put_under]
  exact .setStore _

theorem setElement (name : String) (key : Key) (value : String) (append : Bool) (scope : Scope) :
    Lifts strict loose lost (first.setElement name key value append scope)
      (other.setElement name key value append scope) := by
  refine .bind (lifts_prepare h.guards name scope) fun place => .store_bind fun s => ?_
  rw [Store.get_under, Store.get_under]
  dsimp only
  cases (s.get place).value with
  | reference target => exact .refuse _ _
  | associative elements =>
      exact .bind (lifts_textOf key) fun selected => .bind (h.stored _ _ _) fun text =>
        .bind (putElement place _ _) fun _ => .pure _
  | _ =>
      refine .bind (lifts_indexOf key) fun n => ?_
      cases n with
      | negSucc n => exact .refuseShowing _ _ _
      | ofNat n =>
          refine .store_bind fun s' => ?_
          rw [Store.putValue_under, Store.putValue_under]
          exact .bind (.setStore _) fun _ => .bind (h.stored _ _ _) fun text =>
            .bind (putElement place _ _) fun _ => .pure _

theorem insertPairs (integer : Bool) : ∀ (pairs : List (String × String)) (elements : Table String),
    Lifts strict loose lost (first.insertPairs integer pairs elements)
      (other.insertPairs integer pairs elements)
  | [], elements => .pure elements
  | (_, value) :: rest, _ => .bind (h.stored integer value none) fun _ =>
      insertPairs integer rest _

theorem insertItems (name : String) (integer : Bool) :
    ∀ (items : List ArrayItem) (running : Nat) (elements : IndexedArray),
      Lifts strict loose lost (first.insertItems name integer items running elements)
        (other.insertItems name integer items running elements)
  | [], _, elements => .pure elements
  | item :: rest, running, elements => by
      have hrest (at' : Nat) : Lifts strict loose lost
          (do let text ← first.stored integer item.value none
              first.insertItems name integer rest (at' + 1) (elements.insert at' text))
          (do let text ← other.stored integer item.value none
              other.insertItems name integer rest (at' + 1) (elements.insert at' text)) :=
        .bind (h.stored integer item.value none) fun _ => insertItems name integer rest _ _
      unfold Evaluators.insertItems
      cases item.key with
      | none => exact .bind (.pure running) hrest
      | some subscript =>
          refine .bind (h.index name subscript) fun n => ?_
          cases n with
          | ofNat n => exact .bind (.pure n) hrest
          | negSucc n => exact .bind (.refuse _ _) hrest

theorem assignLiteral (name : String) (literal : ArrayLiteral) (scope : Scope) (append : Bool) :
    Lifts strict loose lost (first.assignLiteral name literal scope append)
      (other.assignLiteral name literal scope append) := by
  refine .bind (lifts_prepare h.guards name scope) fun place => .store_bind fun s => ?_
  rw [Store.get_under, Store.get_under]
  dsimp only
  cases (s.get place).value with
  | reference target => exact .refuse _ _
  | associative old =>
      exact .bind (.query fun _ _ hpairs => hpairs) fun pairs => .bind (h.insertPairs _ _ _)
        fun elements => .bind (putArray place _) fun _ => .pure _
  | _ =>
      exact .bind (h.insertItems _ _ _ _ _) fun elements =>
        .bind (putArray place _) fun _ => .pure _

theorem appendLiteral (name : String) (values : List String) (overrides : Table String) :
    Lifts strict loose lost (first.appendLiteral name values overrides)
      (other.appendLiteral name values overrides) :=
  h.assignLiteral _ _ _ _

theorem assign (target value : String) (scope : Scope) (append : Bool) :
    Lifts strict loose lost (first.assign target value scope append)
      (other.assign target value scope append) := by
  unfold Evaluators.assign
  cases splitSubscript target with
  | mk name subscript =>
      cases subscript with
      | some subscript =>
          exact .bind (h.elementKey name subscript) fun key =>
            h.setElement name key value append scope
      | none =>
          refine .ite (h.assignLiteral _ _ _ _)
            (.bind (lifts_prepare h.guards target scope) fun place => .store_bind fun s => ?_)
          dsimp only
          rw [Store.get_under, Store.get_under]
          have hassign (text : String) (append : Bool) :=
            lifts_assign h.guards target text scope append
          refine .ite (hassign value false) (.ite ?_ (hassign value append))
          exact .bind (h.stored true value _) fun text => hassign text false

end elements

/-! ### Expressions -/

section expressions

include h

theorem readCell (source source' : String) (cell : Cell) :
    Lifts strict loose lost (first.readCell source cell) (other.readCell source' cell) := by
  match cell with
  | .variable name => exact .bind (lifts_get? h.guards name) fun _ => h.valueOf source source' _
  | .element array key =>
      exact .bind (lifts_getElement? h.guards array key) fun _ => h.valueOf source source' _

theorem writeCell (n : Int) (cell : Cell) :
    Lifts strict loose lost (first.writeCell n cell) (other.writeCell n cell) := by
  match cell with
  | .variable name => exact .discard (lifts_assign h.guards name _ _ _)
  | .element array key => exact .discard (h.setElement array key (toString n) false .nearest)

omit h in
theorem operate (source source' : String) (op : Arith.BinaryOp) (left right : Int) :
    Lifts strict loose lost (Evaluators.operate source op left right)
      (Evaluators.operate source' op left right) := by
  unfold Evaluators.operate
  cases op.apply left right with
  | ok n => exact .pure n
  | error problem => exact .refuse _ _

end expressions

mutual

theorem expr (h : Lift strict loose lost first other) (source source' : String) :
    ∀ e : Arith.Expr, Lifts strict loose lost (first.expr source e) (other.expr source' e)
  | .number n => .pure (Arith.wrap n)
  | .read t => .bind (cell h source source' t) fun c => h.readCell source source' c
  | .parameter text => by
      unfold Evaluators.expr
      cases arithmeticText? text with
      | some inside => exact h.evaluate inside
      | none => exact .bind (h.word .text text) fun _ => h.valueOf source source' _
  | .group inner => expr h source source' inner
  | .binary op left right => by
      unfold Evaluators.expr
      refine .bind (expr h source source' left) fun l => ?_
      have hoperate (op : Arith.BinaryOp) : Lifts strict loose lost
          (do Evaluators.operate source op l (← first.expr source right))
          (do Evaluators.operate source' op l (← other.expr source' right)) :=
        .bind (expr h source source' right) fun r => operate source source' op l r
      cases op with
      | and => exact .ite (.pure 0) (hoperate .and)
      | or => exact .ite (.pure 1) (hoperate .or)
      | _ => exact hoperate _
  | .unary op operand => .bind (expr h source source' operand) fun _ => .pure _
  | .preStep op t => .bind (cell h source source' t) fun c =>
      .bind (h.readCell source source' c) fun _ =>
        .bind (cell h source source' t) fun c => .bind (h.writeCell _ c) fun _ => .pure _
  | .postStep op t => .bind (cell h source source' t) fun c =>
      .bind (h.readCell source source' c) fun _ =>
        .bind (cell h source source' t) fun c => .bind (h.writeCell _ c) fun _ => .pure _
  | .ternary condition consequent alternate => .bind (expr h source source' condition) fun _ =>
      .ite (expr h source source' consequent) (expr h source source' alternate)
  | .assign op? t value => by
      unfold Evaluators.expr
      refine .bind (expr h source source' value) fun n => ?_
      have hwrite (n : Int) : Lifts strict loose lost
          (do first.writeCell n (← first.cell source t); return n)
          (do other.writeCell n (← other.cell source' t); return n) :=
        .bind (cell h source source' t) fun c => .bind (h.writeCell n c) fun _ => .pure n
      cases op? with
      | none => exact .bind (.pure n) hwrite
      | some op =>
          exact .bind (cell h source source' t) fun c =>
            .bind (h.readCell source source' c) fun old =>
              .bind (operate source source' op old n) hwrite

theorem cell (h : Lift strict loose lost first other) (source source' : String) :
    ∀ t : Arith.Target, Lifts strict loose lost (first.cell source t) (other.cell source' t)
  | .variable _ => .pure _
  | .element array index _ => .bind (lifts_isAssociative h.guards array) fun _ =>
      .ite (.pure _) (.bind (expr h source source' index) fun _ => .pure _)
  | .keyed array _ => .bind (lifts_isAssociative h.guards array) fun _ =>
      .ite (.pure _) (.refuse _ _)

end

/-! ### Parameters -/

section parameters

include h

theorem directReading (name : String) (subscript : Option String) :
    Lifts strict loose lost (first.directReading name subscript)
      (other.directReading name subscript) := by
  refine .ite (.store_bind fun _ => .pure _)
    (.ite (.bind (lifts_numbered name) fun _ => .pure _)
      (.ite (.store_bind fun _ => .pure _) (.ite (.pure _) ?_)))
  split
  · exact .bind (lifts_get? h.guards name) fun _ => .pure _
  · exact .bind (lifts_allValues h.guards name) fun _ => .pure _
  · exact .bind (lifts_allValues h.guards name) fun _ => .pure _
  · exact .bind (h.elementKey name _) fun key =>
      .bind (lifts_getElement? h.guards name key) fun _ => .pure _

theorem indirectReading (name : String) (subscript : Option String) :
    Lifts strict loose lost (first.indirectReading name subscript)
      (other.indirectReading name subscript) := by
  refine .store_bind fun s => ?_
  rw [show (s.under strict.limits).lookup name = (s.under loose.limits).lookup name from rfl]
  split
  · exact .pure _
  · exact .bind (h.directReading name _) fun reading => .ite (.pure _)
      (.ite (.bind (h.directReading _ _) fun _ => .pure _) (.refuse _ _))

theorem reading (parameter : Parameter) :
    Lifts strict loose lost (first.reading parameter) (other.reading parameter) :=
  .ite (h.indirectReading _ _) (.bind (h.directReading _ _) fun _ => .pure _)

theorem applyMissing (action : MissingAction) (checkEmpty : Bool) (word : String)
    (parameter : ReadParameter) :
    Lifts strict loose lost (first.applyMissing action checkEmpty word parameter)
      (other.applyMissing action checkEmpty word parameter) := by
  have hword : Lifts strict loose lost (do return [← limited (← first.word .text word)])
      (do return [← limited (← other.word .text word)]) :=
    .bind (h.word .text word) fun text => .bind (lifts_limited h.guards text) fun _ => .pure _
  have hcurrent := lifts_currentWords h.guards parameter.reading
  cases action with
  | substitute => exact .ite hword hcurrent
  | assign =>
      refine .ite ?_ hcurrent
      cases parameter.reading with
      | one value =>
          exact .ite (.bind (h.word .text word) fun value => .bind (.discard (h.assign _ _ _ _))
            fun _ => .bind (lifts_limited h.guards value) fun _ => .pure _) (.refuse _ _)
      | all values joined => exact .refuse _ _
  | require => exact .ite (.bind (h.word .text word) fun _ => .refuse _ _) hcurrent
  | alternative => exact .ite (.pure _) hword

theorem applySubstring (parameter : Parameter) (offset : String) (length : Option String)
    (found : ReadParameter) :
    Lifts strict loose lost (first.applySubstring parameter offset length found)
      (other.applySubstring parameter offset length found) := by
  obtain ⟨written, reading⟩ := found
  refine .bind (h.evaluate offset) fun start => ?_
  cases reading with
  | all values joined =>
      have hwords (values : List String) := lifts_words h.guards values joined
      have hall (count : Option Int) : Lifts strict loose lost
          (do words (← sliceAll start count) joined) (do words (← sliceAll start count) joined) :=
        .bind (lifts_sliceAll start count) hwords
      have hslice (count : Option Int) : Lifts strict loose lost
          (do words (← slice (splitSubscript written).1 start count) joined)
          (do words (← slice (splitSubscript written).1 start count) joined) :=
        .bind (lifts_slice h.guards _ start count) hwords
      cases length with
      | none => exact .bind (.pure none) fun count => .ite (hall count) (hslice count)
      | some text =>
          exact .bind (h.evaluate text) fun n => .bind (.pure (some n)) fun count =>
            .ite (hall count) (hslice count)
  | one value =>
      cases length with
      | none =>
          exact .bind (.pure none) fun _ => .bind (.query fun _ _ hcut => hcut) fun _ => .pure _
      | some text =>
          exact .bind (h.evaluate text) fun n => .bind (.pure (some n)) fun _ =>
            .bind (.query fun _ _ hcut => hcut) fun _ => .pure _

theorem applyToText (operation : Option Operation) (written value : String) :
    Lifts strict loose lost (first.applyToText operation written value)
      (other.applyToText operation written value) := by
  unfold Evaluators.applyToText
  split
  · exact .bind (h.word .pattern _) fun _ => .pure _
  · exact .bind (h.word .pattern _) fun _ => .bind (h.word .text _) fun _ => .pure _
  · exact .ite (.bind (.pure _) fun _ => .pure _) (.bind (h.word .pattern _) fun _ => .pure _)
  · exact lifts_applyTransform h.guards _ written value
  · exact .pure value

theorem expandParameter (parameter : Parameter) :
    Lifts strict loose lost (first.expandParameter parameter)
      (other.expandParameter parameter) := by
  have hcheck (found : ReadParameter) := lifts_checkSet h.guards found
  unfold Evaluators.expandParameter
  split
  · exact .store_bind fun _ => lifts_words h.guards _ _
  · exact .bind (lifts_allKeys h.guards _) fun _ => lifts_words h.guards _ _
  · refine .bind (h.reading parameter) fun found => ?_
    split
    · exact h.applyMissing _ _ _ found
    · split
      · exact .pure _
      · exact .bind (hcheck found) fun _ => .pure _
      · exact .bind (hcheck found) fun _ => h.applySubstring parameter _ _ found
      · exact .bind (.mapM (h.applyToText _ _) _) fun _ => lifts_words h.guards _ _
      · exact .bind (hcheck found) fun _ => .ite (.pure _) (.bind (h.applyToText _ _ _)
          fun text => .bind (lifts_limited h.guards text) fun _ => .pure _)

theorem expandToText (parameter : Parameter) :
    Lifts strict loose lost (first.expandToText parameter) (other.expandToText parameter) :=
  .bind (h.expandParameter parameter) fun _ => .pure _

end parameters

/-! ### Words and case selection -/

section words

theorem expandEach {α : Type} {expand expand' : α → Eval String}
    (hexpand : ∀ piece, Lifts strict loose lost (expand piece) (expand' piece)) :
    ∀ pieces : List α, Lifts strict loose lost (Evaluators.expandEach expand pieces)
      (Evaluators.expandEach expand' pieces)
  | [] => .pure ""
  | piece :: rest => .bind (hexpand piece) fun _ =>
      .bind (expandEach hexpand rest) fun _ => .pure _

include h

theorem expandDollar (form : Word.Dollar) :
    Lifts strict loose lost (first.expandDollar form) (other.expandDollar form) := by
  cases form with
  | arithmetic text => exact .bind (h.evaluate text) fun _ => .pure _
  | braced content =>
      exact .bind (.query fun _ _ hparse => hparse) fun parameter => h.expandToText parameter
  | unclosed text => exact .refuse _ _
  | named name => exact h.expandToText _
  | alone => exact .pure "$"

theorem expandAtom (atom : Word.Atom) :
    Lifts strict loose lost (first.expandAtom atom) (other.expandAtom atom) := by
  cases atom with
  | char c => exact .pure _
  | dollar form => exact h.expandDollar form

theorem expandPiece (mode : WordMode) (piece : Word.Piece) :
    Lifts strict loose lost (first.expandPiece mode piece) (other.expandPiece mode piece) := by
  cases piece with
  | double atoms => exact .bind (expandEach h.expandAtom atoms) fun _ => .pure _
  | dollar form => exact h.expandDollar form
  | _ => exact .pure _

theorem expandWord (mode : WordMode) (text : String) :
    Lifts strict loose lost (first.expandWord mode text) (other.expandWord mode text) :=
  expandEach (h.expandPiece mode) _

theorem expand (text : String) :
    Lifts strict loose lost (first.expand text) (other.expand text) := by
  unfold Evaluators.expand
  split
  · exact h.expandParameter _
  · exact .refuse _ _
  · exact .bind (h.expandWord .text text) fun _ => .pure _

theorem matchesWord (text pattern : String) :
    Lifts strict loose lost (first.matchesWord text pattern) (other.matchesWord text pattern) :=
  .bind (h.expandWord .pattern pattern) fun _ => .pure _

theorem matchesAny (text : String) : ∀ patterns : List String,
    Lifts strict loose lost (first.matchesAny text patterns) (other.matchesAny text patterns)
  | [] => .pure false
  | pattern :: rest => .bind (h.matchesWord text pattern) fun _ =>
      .ite (.pure true) (matchesAny text rest)

theorem selectFrom (text : String) : ∀ (clauses : List CaseClause) (index : Nat) (falling : Bool)
    (count : Option Nat), Lifts strict loose lost (first.selectFrom text index falling count clauses)
      (other.selectFrom text index falling count clauses)
  | [], _, _, _ => .pure []
  | clause :: rest, index, falling, count => by
      have hrest := selectFrom text rest
      unfold Evaluators.selectFrom
      refine .either (.pure true) (h.matchesAny text clause.patterns) fun chosen =>
        .ite (.ite (.pure _) (.ite ?_ (.ite ?_ ?_))) (hrest _ _ _)
      · exact .bind (hrest _ _ _) fun _ => .pure _
      · exact .bind (hrest _ _ _) fun _ => .pure _
      · exact .bind (.pure []) fun _ => .pure _

theorem selectBodies (word : String) (clauses : List CaseClause) (count : Option Nat) :
    Lifts strict loose lost (first.selectBodies word clauses count)
      (other.selectBodies word clauses count) :=
  .bind (h.expandWord .text word) fun text => h.selectFrom text clauses 0 false count

end words

end Evaluators.Lift

/-- **Looser guards and more nesting levels keep every result.** -/
theorem evaluators_lift {strict loose : Guards} {lost : Fault → Prop}
    (h : Guards.WithinUpTo lost strict loose) :
    ∀ {levels more : Nat}, levels ≤ more →
      (evaluators levels).Lift strict loose lost (evaluators more)
  | 0, _, _ => ⟨h, fun _ _ => .throw _ _, fun _ _ _ => .throw _ _⟩
  | _ + 1, _ + 1, hmore =>
      have hdeeper := evaluators_lift h (Nat.le_of_succ_le_succ hmore)
      ⟨h, hdeeper.expandWord, hdeeper.expr⟩

end ShellExpansion
