import ShellExpansion.Arith.Parser

/-! # The grammar of arithmetic expressions

An expression stands on a layer of the grammar (`Expr.layer`), from the comma, which binds loosest,
to the steps behind an operand.  A tree is layered (`Expr.Layered`) when all of its operands stand
on layers that their operators take.  `Expr.nesting` counts how many conditionals and signed
operands are open at once when the tree is read.  `Layer.of?` is the layer which a symbol behind
an expression goes on; behind an operand of a layered tree stand only symbols of looser layers. -/

namespace ShellExpansion.Arith

/-! ### Layers -/

/-- The layers of the grammar, from the loosest to the tightest. -/
inductive Layer
  | comma | assignment | conditional | or | and | bitOr | bitXor | bitAnd | equality | relation
  | shift | sum | product | power | signed | stepped
deriving DecidableEq, Repr

namespace Layer

/-- How tightly a layer binds. -/
def rank : Layer → Nat
  | comma => 0
  | assignment => 1
  | conditional => 2
  | or => 3
  | and => 4
  | bitOr => 5
  | bitXor => 6
  | bitAnd => 7
  | equality => 8
  | relation => 9
  | shift => 10
  | sum => 11
  | product => 12
  | power => 13
  | signed => 14
  | stepped => 15

instance : LE Layer := ⟨fun l l' => l.rank ≤ l'.rank⟩

instance : LT Layer := ⟨fun l l' => l.rank < l'.rank⟩

instance (l l' : Layer) : Decidable (l ≤ l') := inferInstanceAs (Decidable (l.rank ≤ l'.rank))

instance (l l' : Layer) : Decidable (l < l') := inferInstanceAs (Decidable (l.rank < l'.rank))

theorem le_def {l l' : Layer} : l ≤ l' ↔ l.rank ≤ l'.rank := Iff.rfl

theorem lt_def {l l' : Layer} : l < l' ↔ l.rank < l'.rank := Iff.rfl

theorem rank_injective {l l' : Layer} (h : l.rank = l'.rank) : l = l' := by
  cases l <;> cases l' <;> first | rfl | exact absurd h (by decide)

/-- The next tighter layer, if there is one. -/
def next : Layer → Layer
  | comma => assignment
  | assignment => conditional
  | conditional => or
  | or => and
  | and => bitOr
  | bitOr => bitXor
  | bitXor => bitAnd
  | bitAnd => equality
  | equality => relation
  | relation => shift
  | shift => sum
  | sum => product
  | product => power
  | power => signed
  | signed => stepped
  | stepped => stepped

theorem rank_next {l : Layer} (h : l < stepped) : l.next.rank = l.rank + 1 := by
  cases l <;> first | rfl | exact absurd h (by decide)

theorem rank_le (l : Layer) : l.rank ≤ stepped.rank := by
  cases l <;> decide

/-- What holds on a layer holds on all looser ones, if it passes from each to the next. -/
theorem descend {p : Layer → Prop} {top : Layer} (htop : p top)
    (hstep : ∀ l, l < top → p l.next → p l) : ∀ l, l ≤ top → p l := by
  intro l
  generalize hd : top.rank - l.rank = d
  induction d generalizing l with
  | zero =>
      intro hle
      rw [le_def] at hle
      have e : l = top := rank_injective (by omega)
      rw [e]
      exact htop
  | succ d ih =>
      intro hle
      have hlt : l < top := lt_def.mpr (by omega)
      have hnext := rank_next (lt_def.mpr (Nat.lt_of_lt_of_le hlt top.rank_le))
      refine hstep l hlt (ih l.next (by omega) ?_)
      rw [le_def]
      omega

end Layer

/-- The layer on which an operator with two operands forms expressions. -/
def BinaryOp.layer : BinaryOp → Layer
  | comma => .comma
  | or => .or
  | and => .and
  | bitOr => .bitOr
  | bitXor => .bitXor
  | bitAnd => .bitAnd
  | eq | ne => .equality
  | lt | gt | le | ge => .relation
  | shiftLeft | shiftRight => .shift
  | add | sub => .sum
  | mul | div | mod => .product
  | pow => .power

/-- The layers of the operands that an operator takes.  The power groups to the right, over signed
operands; the others group to the left. -/
def BinaryOp.Takes : BinaryOp → Layer → Layer → Prop
  | pow, left, right => .signed ≤ left ∧ .power ≤ right
  | op, left, right => op.layer ≤ left ∧ op.layer < right

theorem BinaryOp.takes_iff {op : BinaryOp} (h : op ≠ .pow) {left right : Layer} :
    op.Takes left right ↔ op.layer ≤ left ∧ op.layer < right := by
  cases op <;> first | rfl | exact absurd rfl h

/-- The layer on which an expression stands. -/
def Expr.layer : Expr → Layer
  | .number _ | .read _ | .parameter _ | .postStep _ _ | .group _ => .stepped
  | .unary _ _ | .preStep _ _ => .signed
  | .binary op _ _ => op.layer
  | .ternary _ _ _ => .conditional
  | .assign _ _ _ => .assignment

/-! ### Layered trees -/

mutual

/-- All operands of the tree stand on layers that their operators take. -/
def Expr.Layered : Expr → Prop
  | .number _ => True
  | .read target => target.Layered
  | .parameter _ => True
  | .binary op left right => op.Takes left.layer right.layer ∧ left.Layered ∧ right.Layered
  | .unary _ operand => .signed ≤ operand.layer ∧ operand.Layered
  | .preStep _ target => target.Layered
  | .postStep _ target => target.Layered
  | .ternary condition consequent alternate =>
    (.or ≤ condition.layer ∧ .assignment ≤ consequent.layer ∧ .conditional ≤ alternate.layer) ∧
      condition.Layered ∧ consequent.Layered ∧ alternate.Layered
  | .assign op target value =>
    (∀ binary ∈ op, binary ∈ compoundOps) ∧ .assignment ≤ value.layer ∧
      target.Layered ∧ value.Layered
  | .group inner => inner.Layered

/-- The index of the target is layered. -/
def Target.Layered : Target → Prop
  | .variable _ => True
  | .element _ index _ => index.Layered
  | .keyed _ _ => True

end

/-! ### Nesting -/

/-- How many conditionals and signed operands are open at once when the tree is read.  Every
operand is read as a signed one within a conditional; parentheses, the branches of a conditional
and assigned values open conditionals of their own. -/
def Expr.nesting : Expr → Nat
  | .number _ | .read _ | .parameter _ | .postStep _ _ => 2
  | .binary _ left right => max left.nesting right.nesting
  | .unary _ operand => operand.nesting + 1
  | .preStep _ _ => 3
  | .ternary condition consequent alternate =>
    max condition.nesting (max consequent.nesting alternate.nesting + 1)
  | .assign _ _ value => value.nesting
  | .group inner => inner.nesting + 2

theorem Expr.two_le_nesting (e : Expr) : 2 ≤ e.nesting := by
  fun_induction Expr.nesting e <;> omega

/-! ### What goes on behind an expression -/

/-- The layer whose expressions a symbol behind an operand goes on. -/
def Layer.of? : String → Option Layer
  | "," => some .comma
  | "=" | "+=" | "-=" | "*=" | "/=" | "%=" | "<<=" | ">>=" | "&=" | "^=" | "|=" =>
    some .assignment
  | "?" => some .conditional
  | "||" => some .or
  | "&&" => some .and
  | "|" => some .bitOr
  | "^" => some .bitXor
  | "&" => some .bitAnd
  | "==" | "!=" => some .equality
  | "<" | ">" | "<=" | ">=" => some .relation
  | "<<" | ">>" => some .shift
  | "+" | "-" => some .sum
  | "*" | "/" | "%" => some .product
  | "**" => some .power
  | "++" | "--" => some .stepped
  | _ => none

theorem of?_symbol (op : BinaryOp) : Layer.of? op.symbol = some op.layer := by
  cases op <;> rfl

theorem of?_of_assignmentOf? {symbol : String} {op : Option BinaryOp}
    (h : assignmentOf? symbol = some op) : Layer.of? symbol = some .assignment := by
  unfold assignmentOf? at h
  split at h
  · next he => rw [he]; rfl
  · obtain ⟨found, hfound, _⟩ := Option.map_eq_some_iff.mp h
    have hmem := List.mem_of_find?_eq_some hfound
    have he := List.find?_some hfound
    rw [decide_eq_true_eq] at he
    subst he
    simp only [compoundOps, List.mem_cons, List.not_mem_nil, or_false] at hmem
    rcases hmem with rfl | rfl | rfl | rfl | rfl | rfl | rfl | rfl | rfl | rfl <;> rfl

theorem of?_of_stepOf? {symbol : String} {op : StepOp} (h : stepOf? symbol = some op) :
    Layer.of? symbol = some .stepped := by
  have he := List.find?_some h
  rw [decide_eq_true_eq] at he
  subst he
  cases op <;> rfl

theorem of?_of_operatorOf? {ops : List BinaryOp} {symbol : String} {op : BinaryOp}
    (h : operatorOf? ops symbol = some op) : op ∈ ops ∧ Layer.of? symbol = some op.layer := by
  have he := List.find?_some h
  rw [decide_eq_true_eq] at he
  subst he
  exact ⟨List.mem_of_find?_eq_some h, of?_symbol op⟩

end ShellExpansion.Arith
