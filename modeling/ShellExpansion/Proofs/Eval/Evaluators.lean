import ShellExpansion.Eval.Selection
import ShellExpansion.Proofs.Eval.Reading

/-! # What all evaluators respect

Expressions, parameters, words and case selections are made of evaluations that only read, of the
evaluators of the next nesting level, and of writes: an integer is written to the cell that a
subscript was evaluated for, and a default is assigned to the nearest binding of a name.  A preorder
on shells that these parts respect is respected by all that is made of them
(`Evaluators.RespectAll`). -/

namespace ShellExpansion

namespace Evaluators

open Eval

/-- The evaluators respect a relation that does not depend on how deep variables are evaluated. -/
structure Respect (deeper : Evaluators) (R : Shell → Shell → Prop) : Prop where
  word : ∀ mode text, Respects R (deeper.word mode text)
  expression : ∀ source expr, Respects R (deeper.expression source expr)
  oneDeeper {α : Type} {action : Eval α} (h : Respects R action) : Respects R (Eval.oneDeeper action)

/-- So do the writes that evaluations make: what is written to a cell is written behind the
evaluation that gave it. -/
structure RespectAll (deeper : Evaluators) (R : Shell → Shell → Prop) : Prop
    extends deeper.Respect R where
  writeCell {source : String} {t : Arith.Target} {c : Cell} {shell shell' : Shell} (n : Int)
    (hcell : deeper.cell source t shell = (.ok c, shell')) : R shell' (deeper.writeCell n c shell').2
  assign : ∀ target value, Respects R (deeper.assign target value .nearest false)

variable {deeper : Evaluators} {R : Shell → Shell → Prop} [IsPreorder Shell R]

/-! ### Subscripts and items -/

namespace Respect

variable (h : deeper.Respect R)

include h

theorem evaluate (text : String) : Respects R (deeper.evaluate text) := by
  unfold Evaluators.evaluate
  cases Arith.parse text with
  | ok expr => exact h.expression text expr
  | error fault => exact .throw fault

theorem valueOf (source : String) (value : Option String) :
    Respects R (deeper.valueOf source value) := by
  cases value with
  | none => exact .pure 0
  | some text =>
      unfold Evaluators.valueOf
      refine .ite (.pure 0) ?_
      dsimp only
      cases plainNumber? (Text.strip text) with
      | some number =>
          dsimp only
          cases Arith.constant (shownSource source (Text.strip text)) number.2 with
          | ok n => exact .pure _
          | error fault => exact .throw fault
      | none =>
          refine h.oneDeeper
            (.bind .limits fun limits => .bind .get fun shell => .ite (.refuse _) ?_)
          split
          · exact h.expression _ _
          · exact .pure 0
          · exact .throw _

theorem index (name subscript : String) : Respects R (deeper.index name subscript) :=
  .ite (.refuse _) (h.evaluate subscript)

theorem elementKey (name subscript : String) :
    Respects R (deeper.elementKey name subscript) :=
  .bind (respects_isAssociative name) fun _ =>
    .ite (.bind (h.word .text subscript) fun _ => .pure _)
      (.bind (h.index name subscript) fun _ => .pure _)

theorem stored (integer : Bool) (value : String) (old : Option String) :
    Respects R (deeper.stored integer value old) := by
  refine .ite (.either (.pure 0) (h.evaluate value) fun n => ?_) (.pure _)
  cases old with
  | none => exact .pure _
  | some text => exact .bind (h.valueOf "" (some text)) fun _ => .pure _

theorem insertPairs (integer : Bool) : ∀ (pairs : List (String × String)) (elements : Table String),
    Respects R (deeper.insertPairs integer pairs elements)
  | [], elements => .pure elements
  | (_, value) :: rest, _ => .bind (h.stored integer value none) fun _ =>
      insertPairs integer rest _

theorem insertItems (name : String) (integer : Bool) :
    ∀ (items : List ArrayItem) (running : Nat) (elements : IndexedArray),
      Respects R (deeper.insertItems name integer items running elements)
  | [], _, elements => .pure elements
  | item :: rest, running, elements => by
      have hrest (at' : Nat) : Respects R (do
          let text ← deeper.stored integer item.value none
          deeper.insertItems name integer rest (at' + 1) (elements.insert at' text)) :=
        .bind (h.stored integer item.value none) fun _ => insertItems name integer rest _ _
      unfold Evaluators.insertItems
      cases item.key with
      | none => exact .bind (.pure running) hrest
      | some subscript =>
          refine .bind (h.index name subscript) fun n => ?_
          cases n with
          | ofNat n => exact .bind (.pure n) hrest
          | negSucc n => exact .bind (.refuse _) hrest

end Respect

namespace RespectAll

variable (h : deeper.RespectAll R)

/-! ### Expressions -/

section expressions

include h

theorem readCell (source : String) (cell : Cell) :
    Respects R (deeper.readCell source cell) := by
  match cell with
  | .variable name => exact .bind .query fun _ => h.valueOf source _
  | .element array key => exact .bind (respects_getElement? array key) fun _ => h.valueOf source _

/-- What is done to a cell is done as soon as its subscript is evaluated. -/
theorem writeTarget {source : String} {t : Arith.Target}
    (hcell : Respects R (deeper.cell source t)) (n m : Int) :
    Respects R (do deeper.writeCell n (← deeper.cell source t); return m) := by
  intro shell
  exact respects_bind_at (hcell shell) fun c shell' hrun =>
    respects_bind_at (h.writeCell n hrun) fun _ _ _ => refl _

omit h in
theorem operate (source : String) (op : Arith.BinaryOp) (left right : Int) :
    Respects R (operate source op left right) := by
  unfold Evaluators.operate
  cases op.apply left right with
  | ok n => exact .pure n
  | error problem => exact .refuse _

end expressions

mutual

theorem expr (h : deeper.RespectAll R) (source : String) :
    ∀ e : Arith.Expr, Respects R (deeper.expr source e)
  | .number n => .pure (Arith.wrap n)
  | .read t => .bind (cell h source t) fun c => h.readCell source c
  | .parameter text => by
      unfold Evaluators.expr
      cases arithmeticText? text with
      | some inside => exact h.evaluate inside
      | none => exact .bind (h.word .text text) fun _ => h.valueOf source _
  | .group inner => expr h source inner
  | .binary op left right => by
      unfold Evaluators.expr
      refine .bind (expr h source left) fun l => ?_
      have hoperate (op : Arith.BinaryOp) : Respects R
          (do Evaluators.operate source op l (← deeper.expr source right)) :=
        .bind (expr h source right) fun r => operate source op l r
      cases op with
      | and => exact .ite (.pure 0) (hoperate .and)
      | or => exact .ite (.pure 1) (hoperate .or)
      | _ => exact hoperate _
  | .unary op operand => .bind (expr h source operand) fun _ => .pure _
  | .preStep op t => .bind (cell h source t) fun c => .bind (h.readCell source c) fun _ =>
      h.writeTarget (cell h source t) _ _
  | .postStep op t => .bind (cell h source t) fun c => .bind (h.readCell source c) fun _ =>
      h.writeTarget (cell h source t) _ _
  | .ternary condition consequent alternate => .bind (expr h source condition) fun _ =>
      .ite (expr h source consequent) (expr h source alternate)
  | .assign op? t value => by
      unfold Evaluators.expr
      refine .bind (expr h source value) fun n => ?_
      have hwrite (n : Int) : Respects R
          (do deeper.writeCell n (← deeper.cell source t); return n) :=
        h.writeTarget (cell h source t) n n
      cases op? with
      | none => exact .bind (.pure n) hwrite
      | some op =>
          exact .bind (cell h source t) fun c => .bind (h.readCell source c) fun old =>
            .bind (operate source op old n) hwrite

theorem cell (h : deeper.RespectAll R) (source : String) :
    ∀ t : Arith.Target, Respects R (deeper.cell source t)
  | .variable _ => .pure _
  | .element array index _ => .bind (respects_isAssociative array) fun _ =>
      .ite (.pure _) (.bind (expr h source index) fun _ => .pure _)
  | .keyed array _ => .bind (respects_isAssociative array) fun _ => .ite (.pure _) (.refuse _)

end

/-! ### Parameters -/

section parameters

include h

theorem directReading (name : String) (subscript : Option String) :
    Respects R (deeper.directReading name subscript) := by
  refine .ite (.bind .store fun _ => .pure _)
    (.ite (.bind (respects_numbered name) fun _ => .pure _)
      (.ite (.bind .store fun _ => .pure _) (.ite (.pure _) ?_)))
  split
  · exact .bind .query fun _ => .pure _
  · exact .bind (respects_allValues name) fun _ => .pure _
  · exact .bind (respects_allValues name) fun _ => .pure _
  · exact .bind (h.elementKey name _) fun key =>
      .bind (respects_getElement? name key) fun _ => .pure _

theorem indirectReading (name : String) (subscript : Option String) :
    Respects R (deeper.indirectReading name subscript) := by
  refine .bind .store fun s => ?_
  split
  · exact .pure _
  · exact .bind (h.directReading name _) fun reading => .ite (.pure _)
      (.ite (.bind (h.directReading _ _) fun _ => .pure _) (.refuse _))

theorem reading (parameter : Parameter) : Respects R (deeper.reading parameter) :=
  .ite (h.indirectReading _ _) (.bind (h.directReading _ _) fun _ => .pure _)

theorem applyMissing (action : MissingAction) (checkEmpty : Bool) (word : String)
    (parameter : ReadParameter) :
    Respects R (deeper.applyMissing action checkEmpty word parameter) := by
  have hword : Respects R (do return [← limited (← deeper.word .text word)]) :=
    .bind (h.word .text word) fun text => .bind (respects_limited text) fun _ => .pure _
  have hcurrent : Respects R (currentWords parameter.reading) := respects_currentWords _
  cases action with
  | substitute => exact .ite hword hcurrent
  | assign =>
      refine .ite ?_ hcurrent
      cases parameter.reading with
      | one value =>
          exact .ite (.bind (h.word .text word) fun value => .bind (.discard (h.assign _ _))
            fun _ => .bind (respects_limited value) fun _ => .pure _) (.refuse _)
      | all values joined => exact .refuse _
  | require => exact .ite (.bind (h.word .text word) fun _ => .refuse _) hcurrent
  | alternative => exact .ite (.pure _) hword

theorem applySubstring (parameter : Parameter) (offset : String) (length : Option String)
    (found : ReadParameter) :
    Respects R (deeper.applySubstring parameter offset length found) := by
  obtain ⟨written, reading⟩ := found
  refine .bind (h.evaluate offset) fun start => ?_
  cases reading with
  | all values joined =>
      have hcut (count : Option Int) : Respects R (do
          if (parameter.name = "@" ∨ parameter.name = "*") ∧ !parameter.indirect then
            words (← sliceAll start count) joined
          else words (← slice (splitSubscript written).1 start count) joined) :=
        .ite (.bind (respects_sliceAll start count) fun _ => respects_words _ joined)
          (.bind (respects_slice _ start count) fun _ => respects_words _ joined)
      cases length with
      | none => exact .bind (.pure none) hcut
      | some text => exact .bind (h.evaluate text) fun n => .bind (.pure (some n)) hcut
  | one value =>
      cases length with
      | none => exact .bind (.pure none) fun _ => .bind .query fun _ => .pure _
      | some text =>
          exact .bind (h.evaluate text) fun n => .bind (.pure (some n)) fun _ =>
            .bind .query fun _ => .pure _

theorem applyToText (operation : Option Operation) (written value : String) :
    Respects R (deeper.applyToText operation written value) := by
  unfold Evaluators.applyToText
  split
  · exact .bind (h.word .pattern _) fun _ => .pure _
  · exact .bind (h.word .pattern _) fun _ => .bind (h.word .text _) fun _ => .pure _
  · exact .ite (.bind (.pure _) fun _ => .pure _) (.bind (h.word .pattern _) fun _ => .pure _)
  · exact respects_applyTransform _ written value
  · exact .pure value

theorem expandParameter (parameter : Parameter) :
    Respects R (deeper.expandParameter parameter) := by
  unfold Evaluators.expandParameter
  split
  · exact .bind .store fun _ => respects_words _ _
  · exact .bind (respects_allKeys _) fun _ => respects_words _ _
  · refine .bind (h.reading parameter) fun found => ?_
    split
    · exact h.applyMissing _ _ _ found
    · split
      · exact .pure _
      · exact .bind (respects_checkSet found) fun _ => .pure _
      · exact .bind (respects_checkSet found) fun _ => h.applySubstring parameter _ _ found
      · exact .bind (.mapM (h.applyToText _ _) _) fun _ => respects_words _ _
      · exact .bind (respects_checkSet found) fun _ => .ite (.pure _)
          (.bind (h.applyToText _ _ _) fun text => .bind (respects_limited text) fun _ => .pure _)

theorem expandToText (parameter : Parameter) :
    Respects R (deeper.expandToText parameter) :=
  .bind (h.expandParameter parameter) fun _ => .pure _

end parameters

/-! ### Words and case selection -/

section words

theorem expandEach {α : Type} {expand : α → Eval String}
    (hexpand : ∀ piece, Respects R (expand piece)) :
    ∀ pieces : List α, Respects R (Evaluators.expandEach expand pieces)
  | [] => .pure ""
  | piece :: rest => .bind (hexpand piece) fun _ =>
      .bind (expandEach hexpand rest) fun _ => .pure _

include h

theorem expandDollar (form : Word.Dollar) : Respects R (deeper.expandDollar form) := by
  cases form with
  | arithmetic text => exact .bind (h.evaluate text) fun _ => .pure _
  | braced content => exact .bind .query fun parameter => h.expandToText parameter
  | unclosed text => exact .refuse _
  | named name => exact h.expandToText _
  | alone => exact .pure "$"

theorem expandAtom (atom : Word.Atom) : Respects R (deeper.expandAtom atom) := by
  cases atom with
  | char c => exact .pure _
  | dollar form => exact h.expandDollar form

theorem expandPiece (mode : WordMode) (piece : Word.Piece) :
    Respects R (deeper.expandPiece mode piece) := by
  cases piece with
  | double atoms => exact .bind (expandEach h.expandAtom atoms) fun _ => .pure _
  | dollar form => exact h.expandDollar form
  | _ => exact .pure _

theorem expandWord (mode : WordMode) (text : String) :
    Respects R (deeper.expandWord mode text) :=
  expandEach (h.expandPiece mode) _

theorem expand (text : String) : Respects R (deeper.expand text) := by
  unfold Evaluators.expand
  split
  · exact h.expandParameter _
  · exact .refuse _
  · exact .bind (h.expandWord .text text) fun _ => .pure _

theorem matchesWord (text pattern : String) :
    Respects R (deeper.matchesWord text pattern) :=
  .bind (h.expandWord .pattern pattern) fun _ => .pure _

theorem matchesAny (text : String) : ∀ patterns : List String,
    Respects R (deeper.matchesAny text patterns)
  | [] => .pure false
  | pattern :: rest => .bind (h.matchesWord text pattern) fun _ =>
      .ite (.pure true) (matchesAny text rest)

theorem selectFrom (text : String) : ∀ (clauses : List CaseClause) (index : Nat) (falling : Bool)
    (count : Option Nat), Respects R (deeper.selectFrom text index falling count clauses)
  | [], _, _, _ => .pure []
  | clause :: rest, index, falling, count => by
      have hrest := selectFrom text rest
      unfold Evaluators.selectFrom
      refine .either (.pure true) (h.matchesAny text clause.patterns) fun chosen =>
        .ite (.ite (.pure _) (.ite ?_ (.ite ?_ ?_))) (hrest _ _ _)
      · exact .bind (hrest _ _ _) fun _ => .pure _
      · exact .bind (hrest _ _ _) fun _ => .pure _
      · exact .bind (.pure []) fun _ => .pure _

theorem selectBodies (word : String) (clauses : List CaseClause) (count : Option Nat) :
    Respects R (deeper.selectBodies word clauses count) :=
  .bind (h.expandWord .text word) fun text => h.selectFrom text clauses 0 false count

end words

end RespectAll

end Evaluators

end ShellExpansion
