import ShellExpansion.Proofs.Arith.Chain
import ShellExpansion.Proofs.Arith.Printing

/-! # Reading the tokens of a tree

Every layer of the grammar has its parser (`reader`).  The tokens of a tree are read by the parser
of its own layer, and what the parser of a layer reads is read by those of all looser layers, since
none of these finds an operator of its own behind it (`Parses.climb`).  Numbers, targets and groups
are read by `primary`, and a step behind a target by `postfixed`. -/

namespace ShellExpansion.Arith

/-- The operators of a layer that groups to the left. -/
def Layer.operators : Layer → List BinaryOp
  | comma => [.comma]
  | or => [.or]
  | and => [.and]
  | bitOr => [.bitOr]
  | bitXor => [.bitXor]
  | bitAnd => [.bitAnd]
  | equality => [.eq, .ne]
  | relation => [.lt, .gt, .le, .ge]
  | shift => [.shiftLeft, .shiftRight]
  | sum => [.add, .sub]
  | product => [.mul, .div, .mod]
  | assignment | conditional | power | signed | stepped => []

theorem layer_of_mem_operators {l : Layer} : ∀ op ∈ l.operators, op.layer = l := by
  cases l <;> decide

theorem operatorOf?_symbol {l : Layer} :
    ∀ op ∈ l.operators, operatorOf? l.operators op.symbol = some op := by
  cases l <;> decide

theorem mem_operators {op : BinaryOp} (h : op ≠ .pow) : op ∈ op.layer.operators := by
  cases op <;> first | decide | exact absurd rfl h

theorem lt_next_of_operators {l : Layer} (h : l.operators ≠ []) : l < l.next := by
  cases l <;> first | decide | exact absurd rfl h

theorem lt_stepped_of_operators {l : Layer} (h : l.operators ≠ []) : l < .stepped := by
  cases l <;> first | decide | exact absurd rfl h

/-! ### The parsers of the layers -/

variable (text : String) (index : String → Except Fault Expr) (n : Nat)

/-- The parser of a layer when `n + 2` conditionals and signed operands may still be opened; it
takes `count` operators that group to the right, if the layer has such ones. -/
def reader (count : Nat) : Layer → Parser Expr
  | .comma => commas text (conditional text index (n + 2))
  | .assignment => assignments text (conditional text index (n + 2)) count
  | .conditional => conditional text index (n + 2)
  | .signed => signed text index (n + 1)
  | .stepped => postfixed (primary text index (conditional text index n))
  | l =>
    (binaryLevels.drop (l.rank - Layer.or.rank)).foldr level
      (powers (signed text index (n + 1)) count)

/-- The parser of the operands of a layer that groups to the left. -/
def operandReader (count : Nat) : Layer → Parser Expr
  | .comma => assignment text (conditional text index (n + 2))
  | l => reader text index n count l.next

theorem reader_eq_level {l : Layer} (h : l.operators ≠ []) (count : Nat) :
    reader text index n count l = level l.operators (operandReader text index n count l) := by
  cases l <;> first | rfl | exact absurd rfl h

/-- The tokens are read into the expression on the layer. -/
def Parses (l : Layer) (tokens : List Token) (e : Expr) : Prop :=
  ∀ count, tokens.length ≤ count → Reads (reader text index n count l) l tokens e

/-- The tokens are a chain of operands on a layer that groups to the left. -/
def Chained (l : Layer) (tokens : List Token) (e : Expr) : Prop :=
  ∀ count, tokens.length ≤ count →
    Chain l.operators (operandReader text index n count l) l.next tokens e

variable {text index n} {l : Layer} {tokens : List Token} {e : Expr}

theorem Parses.operand (h : Parses text index n l.next tokens e) {count : Nat}
    (hcount : tokens.length ≤ count) :
    Reads (operandReader text index n count l) l.next tokens e := by
  cases l with
  | comma =>
      intro rest hrest
      have hlength : tokens.length ≤ (tokens ++ rest).length := by
        rw [List.length_append]
        omega
      exact h (tokens ++ rest).length hlength rest hrest
  | _ => exact h count hcount

theorem Parses.chained (h : Parses text index n l.next tokens e) :
    Chained text index n l tokens e :=
  fun _ hcount => .operand (h.operand hcount)

theorem Chained.parses (h : Chained text index n l tokens e) (hl : l.operators ≠ []) :
    Parses text index n l tokens e := by
  intro count hcount
  rw [reader_eq_level text index n hl]
  exact (h count hcount).reads layer_of_mem_operators (lt_next_of_operators hl) operatorOf?_symbol

/-! ### From a layer to the next looser one -/

theorem parses_power (h : Parses text index n .signed tokens e) :
    Parses text index n .power tokens e := by
  intro count hcount rest hrest
  have hread : signed text index (n + 1) (tokens ++ rest) = .ok (e, rest) :=
    h count hcount rest (hrest.mono (by decide))
  show powers (signed text index (n + 1)) count (tokens ++ rest) = _
  cases count with
  | zero => exact hread
  | succ count =>
      have hstop := hrest.takeIf BinaryOp.pow.symbol (by decide) rfl
      rw [powers, bind_eq_of_ok hread, bind_eq_of_ok hstop]
      rfl

theorem Parses.binary (h : Parses text index n .or tokens e) {rest : List Token}
    (hrest : Stops .or rest) :
    binary (signed text index (n + 1)) (tokens ++ rest) = .ok (e, rest) := by
  have hlength : tokens.length ≤ (tokens ++ rest).length := by
    rw [List.length_append]
    omega
  exact h (tokens ++ rest).length hlength rest hrest

theorem parses_conditional (h : Parses text index n .or tokens e) :
    Parses text index n .conditional tokens e := by
  intro count hcount rest hrest
  have hread := h.binary (hrest.mono (by decide))
  have hstop := hrest.takeIf "?" (by decide) rfl
  show conditional text index (n + 2) (tokens ++ rest) = _
  rw [conditional, bind_eq_of_ok hread, bind_eq_of_ok hstop]
  rfl

theorem parses_assignment (h : Parses text index n .conditional tokens e) :
    Parses text index n .assignment tokens e := by
  intro count hcount rest hrest
  have hread : conditional text index (n + 2) (tokens ++ rest) = .ok (e, rest) :=
    h count hcount rest (hrest.mono (by decide))
  have hnone : ∀ symbol ∈ firstSymbol? rest, assignmentOf? symbol = none := fun symbol hsymbol =>
    hrest.assignmentOf?_eq_none (Nat.le_refl _) hsymbol
  have hnext : ((firstSymbol? rest).bind assignmentOf?).isSome = false := by
    cases hfirst : firstSymbol? rest with
    | none => rfl
    | some symbol => rw [Option.bind_some, hnone symbol hfirst]; rfl
  show assignments text (conditional text index (n + 2)) count (tokens ++ rest) = _
  cases count with
  | zero => exact hread
  | succ count =>
      rw [assignments, bind_eq_of_ok hread]
      cases e with
      | read target =>
          dsimp only
          rw [bind_eq_of_ok (takeSymbol?_none hnone)]
          rfl
      | _ =>
          dsimp only
          rw [bind_eq_of_ok (nextSymbol?_eq rest), hnext]
          rfl

/-- No sign and no step comes first. -/
def BeginsPrimary (tokens : List Token) : Prop :=
  tokens ≠ [] ∧ ∀ symbol ∈ firstSymbol? tokens, symbol = "("

theorem parses_signed (h : Parses text index n .stepped tokens e) (hbegins : BeginsPrimary tokens) :
    Parses text index n .signed tokens e := by
  intro count hcount rest hrest
  have hread := h count hcount rest (hrest.mono (by decide))
  obtain ⟨hne, hfirst⟩ := hbegins
  rw [← firstSymbol?_append hne rest] at hfirst
  have hstep : takeSymbol? stepOf? (tokens ++ rest) = .ok (none, tokens ++ rest) :=
    takeSymbol?_none fun symbol hsymbol => by rw [hfirst symbol hsymbol]; decide
  have hsign : takeSymbol? unaryOf? (tokens ++ rest) = .ok (none, tokens ++ rest) :=
    takeSymbol?_none fun symbol hsymbol => by rw [hfirst symbol hsymbol]; decide
  show signed text index (n + 1) (tokens ++ rest) = _
  rw [signed, bind_eq_of_ok hstep]
  dsimp only
  rw [bind_eq_of_ok hsign]
  exact hread

/-- **What is read on a layer is read on all looser ones.** -/
theorem Parses.climb {top : Layer} (h : Parses text index n top tokens e)
    (hbegins : top = .stepped → BeginsPrimary tokens) :
    ∀ l ≤ top, Parses text index n l tokens e := by
  refine Layer.descend h fun l hlt hnext => ?_
  have hgroups : l.operators ≠ [] → Parses text index n l tokens e :=
    fun hl => (Parses.chained hnext).parses hl
  cases l with
  | assignment => exact parses_assignment hnext
  | conditional => exact parses_conditional hnext
  | power => exact parses_power hnext
  | signed =>
      have htop : top = .stepped := by
        have hle := top.rank_le
        rw [Layer.lt_def] at hlt
        refine Layer.rank_injective ?_
        simp only [Layer.rank] at hlt hle ⊢
        omega
      exact parses_signed hnext (hbegins htop)
  | stepped =>
      have hle := top.rank_le
      rw [Layer.lt_def] at hlt
      omega
  | _ => exact hgroups (by decide)

/-! ### Primaries and steps -/

variable {rest : List Token}

/-- What the parser of subscripts makes of the target's subscript is its index, or an error of an
expression if it has none. -/
def Target.Indexed (index : String → Except Fault Expr) : Target → Prop
  | .variable _ => True
  | .element _ inner subscript => index subscript = .ok inner
  | .keyed _ subscript =>
    ∃ text problem, index subscript = .error (.error (.arithmetic text problem))

theorem get_eq (tokens : List Token) :
    (get : Parser (List Token)) tokens = .ok (tokens, tokens) := rfl

theorem primary_target (operand : Parser Expr) (position : Nat) :
    ∀ {target : Target}, target.Indexed index →
      primary text index operand (⟨target.lexeme, position⟩ :: rest) = .ok (.read target, rest)
  | .variable _, _ => rfl
  | .element array inner subscript, h => by
      have hindex : index subscript = .ok inner := h
      unfold primary
      rw [bind_eq_of_ok (get_eq _)]
      dsimp only [Target.lexeme]
      rw [hindex]
      rfl
  | .keyed array subscript, ⟨_, _, hindex⟩ => by
      unfold primary
      rw [bind_eq_of_ok (get_eq _)]
      dsimp only [Target.lexeme]
      rw [hindex]
      rfl

theorem primary_number {number : String} {value : Int} (h : constant text number = .ok value)
    (operand : Parser Expr) (position : Nat) :
    primary text index operand (⟨.number number, position⟩ :: rest) =
      .ok (.number value, rest) := by
  unfold primary
  rw [bind_eq_of_ok (get_eq _)]
  dsimp only
  rw [h]
  rfl

theorem primary_group {operand : Parser Expr} (h : Reads (commas text operand) .comma tokens e)
    (position position' : Nat) :
    primary text index operand
      (⟨.symbol "(", position⟩ :: (tokens ++ ⟨.symbol ")", position'⟩ :: rest)) =
        .ok (.group e, rest) := by
  have hstops : Stops .comma (⟨.symbol ")", position'⟩ :: rest) :=
    stops_symbol (by decide) position' rest
  have hexpect := expect_symbol text ")" position' rest
  unfold primary
  rw [bind_eq_of_ok (get_eq _)]
  dsimp only
  rw [bind_eq_of_ok (takeIf_true "(" position _), if_pos rfl, bind_eq_of_ok (h _ hstops),
    bind_eq_of_ok hexpect]
  rfl

theorem postfixed_of_ok {operand : Parser Expr} (h : operand (tokens ++ rest) = .ok (e, rest))
    (hrest : Stops .stepped rest) : postfixed operand (tokens ++ rest) = .ok (e, rest) := by
  rw [postfixed, bind_eq_of_ok h]
  cases e with
  | read target =>
      dsimp only
      rw [bind_eq_of_ok hrest.takeStep]
      rfl
  | _ => rfl

theorem postfixed_step {operand : Parser Expr} {target : Target} {op : StepOp} {position : Nat}
    (h : operand tokens = .ok (.read target, ⟨.symbol op.symbol, position⟩ :: rest)) :
    postfixed operand tokens = .ok (.postStep op target, rest) := by
  have hstep : stepOf? op.symbol = some op := by cases op <;> rfl
  rw [postfixed, bind_eq_of_ok h]
  dsimp only
  rw [bind_eq_of_ok (takeSymbol?_some hstep position rest)]
  rfl

theorem parseNested_of_tokenize {text : String} {tokens : List Token}
    (h : tokenize text = .ok tokens) (nesting : Nat) :
    parseNested (nesting + 1) text = Prod.fst <$> whole text (parseNested nesting) tokens := by
  rw [parseNested, h]
  show (whole text (parseNested nesting)).run' tokens = _
  rw [StateT.run'_eq]
  rfl

end ShellExpansion.Arith
