import ShellExpansion.Proofs.Arith.Grammar

/-! # Operands with operators between them

A parser reads an expression off the tokens that spell it (`Reads`) when it leaves alone what is
behind them, provided that nothing there goes on an expression of its layer (`Stops`).  Tokens that
spell operands with operators of one level between them make up a chain (`Chain`), and the parser of
the level reads a chain into a tree that groups to the left (`Chain.reads`). -/

namespace ShellExpansion.Arith

/-! ### Taking tokens -/

variable {α β : Type}

theorem bind_eq_of_ok {p : Parser α} {f : α → Parser β} {tokens tokens' : List Token} {a : α}
    (h : p tokens = .ok (a, tokens')) : (p >>= f) tokens = f a tokens' := by
  show (p tokens >>= fun result => f result.1 result.2) = _
  rw [h]
  rfl

/-- The symbol that comes next, if a symbol does. -/
def firstSymbol? : List Token → Option String
  | ⟨.symbol symbol, _⟩ :: _ => some symbol
  | _ => none

theorem firstSymbol?_append {tokens : List Token} (h : tokens ≠ []) (rest : List Token) :
    firstSymbol? (tokens ++ rest) = firstSymbol? tokens := by
  cases tokens with
  | nil => exact absurd rfl h
  | cons token tokens =>
      obtain ⟨found, position⟩ := token
      cases found <;> rfl

theorem takeSymbol?_some {f : String → Option α} {symbol : String} {a : α} (h : f symbol = some a)
    (position : Nat) (rest : List Token) :
    takeSymbol? f (⟨.symbol symbol, position⟩ :: rest) = .ok (some a, rest) := by
  simp only [takeSymbol?, h]

theorem takeSymbol?_none {f : String → Option α} {tokens : List Token}
    (h : ∀ symbol ∈ firstSymbol? tokens, f symbol = none) :
    takeSymbol? f tokens = .ok (none, tokens) := by
  unfold takeSymbol?
  split
  · next symbol position rest =>
      have hnone : f symbol = none := h symbol rfl
      rw [hnone]
  · rfl

theorem takeIf_true (symbol : String) (position : Nat) (rest : List Token) :
    takeIf symbol (⟨.symbol symbol, position⟩ :: rest) = .ok (true, rest) := by
  unfold takeIf
  rw [bind_eq_of_ok (takeSymbol?_some (if_pos rfl) position rest)]
  rfl

theorem takeIf_false {symbol : String} {tokens : List Token} (h : symbol ∉ firstSymbol? tokens) :
    takeIf symbol tokens = .ok (false, tokens) := by
  unfold takeIf
  have hnone : ∀ found ∈ firstSymbol? tokens,
      (if found = symbol then some () else none) = none := by
    intro found hfound
    refine if_neg ?_
    rintro rfl
    exact h hfound
  rw [bind_eq_of_ok (takeSymbol?_none hnone)]
  rfl

theorem expect_symbol (text symbol : String) (position : Nat) (rest : List Token) :
    expect text symbol (⟨.symbol symbol, position⟩ :: rest) = .ok ((), rest) := by
  unfold expect
  rw [bind_eq_of_ok (takeIf_true symbol position rest)]
  rfl

theorem nextSymbol?_eq (tokens : List Token) :
    nextSymbol? tokens = .ok (firstSymbol? tokens, tokens) := by
  cases tokens with
  | nil => rfl
  | cons token rest =>
      obtain ⟨found, position⟩ := token
      cases found <;> rfl

/-! ### Where an expression stops -/

/-- No symbol comes next that goes on an expression of the layer or of a tighter one. -/
def Stops (l : Layer) (rest : List Token) : Prop :=
  ∀ symbol ∈ firstSymbol? rest, ∀ next ∈ Layer.of? symbol, next < l

theorem stops_nil (l : Layer) : Stops l [] := by
  intro symbol h
  cases h

theorem stops_symbol {l : Layer} {symbol : String} (h : ∀ next ∈ Layer.of? symbol, next < l)
    (position : Nat) (rest : List Token) : Stops l (⟨.symbol symbol, position⟩ :: rest) := by
  intro found hfound
  cases hfound
  exact h

namespace Stops

variable {l l' : Layer} {rest : List Token}

theorem mono (h : Stops l rest) (hle : l ≤ l') : Stops l' rest := by
  intro symbol hsymbol next hnext
  exact Nat.lt_of_lt_of_le (h symbol hsymbol next hnext) hle

/-- No symbol comes next that goes on a layer which is not looser. -/
theorem ne_of? (h : Stops l rest) (hle : l ≤ l') {symbol : String}
    (hsymbol : symbol ∈ firstSymbol? rest) : Layer.of? symbol ≠ some l' := by
  intro hnext
  have hlt := h symbol hsymbol l' hnext
  rw [Layer.le_def] at hle
  rw [Layer.lt_def] at hlt
  omega

theorem takeOperator (h : Stops l rest) {ops : List BinaryOp} (hops : ∀ op ∈ ops, l ≤ op.layer) :
    takeSymbol? (operatorOf? ops) rest = .ok (none, rest) := by
  refine takeSymbol?_none fun symbol hsymbol => Option.eq_none_iff_forall_not_mem.mpr ?_
  intro op hop
  obtain ⟨hmem, hlayer⟩ := of?_of_operatorOf? hop
  exact h.ne_of? (hops op hmem) hsymbol hlayer

theorem takeStep (h : Stops l rest) : takeSymbol? stepOf? rest = .ok (none, rest) := by
  refine takeSymbol?_none fun symbol hsymbol => Option.eq_none_iff_forall_not_mem.mpr ?_
  intro op hop
  exact h.ne_of? l.rank_le hsymbol (of?_of_stepOf? hop)

theorem assignmentOf?_eq_none (h : Stops l rest) (hle : l ≤ .assignment) {symbol : String}
    (hsymbol : symbol ∈ firstSymbol? rest) : assignmentOf? symbol = none := by
  refine Option.eq_none_iff_forall_not_mem.mpr fun op hop => ?_
  exact h.ne_of? hle hsymbol (of?_of_assignmentOf? hop)

theorem takeIf (h : Stops l rest) (symbol : String) (hlayer : ∀ next ∈ Layer.of? symbol, l ≤ next)
    (hsome : (Layer.of? symbol).isSome) : takeIf symbol rest = .ok (false, rest) := by
  obtain ⟨next, hnext⟩ := Option.isSome_iff_exists.mp hsome
  exact takeIf_false fun hsymbol => h.ne_of? (hlayer next hnext) hsymbol hnext

end Stops

/-! ### Reading an expression -/

/-- The parser reads the expression off the tokens, whatever stands behind them that does not go on
an expression of the layer. -/
def Reads (p : Parser Expr) (l : Layer) (tokens : List Token) (e : Expr) : Prop :=
  ∀ rest, Stops l rest → p (tokens ++ rest) = .ok (e, rest)

/-- Operands of a layer with operators between them, and the tree that groups them to the left. -/
inductive Chain (ops : List BinaryOp) (operand : Parser Expr) (l : Layer) :
    List Token → Expr → Prop
  | operand {tokens e} (h : Reads operand l tokens e) : Chain ops operand l tokens e
  | operator {tokens left op position tokens' right} (h : Chain ops operand l tokens left)
      (hop : op ∈ ops) (h' : Reads operand l tokens' right) :
      Chain ops operand l (tokens ++ ⟨.symbol op.symbol, position⟩ :: tokens')
        (.binary op left right)

namespace Chain

variable {ops : List BinaryOp} {operand : Parser Expr} {l : Layer} {tokens : List Token} {e : Expr}

/-- The first operand of a chain is read at once, and the others one by one behind it. -/
theorem run (h : Chain ops operand l tokens e) (hlayer : ∀ op ∈ ops, op.layer < l)
    (hfind : ∀ op ∈ ops, operatorOf? ops op.symbol = some op) :
    ∃ first after count, count ≤ after.length ∧
      (∀ rest, Stops l rest → operand (tokens ++ rest) = .ok (first, after ++ rest)) ∧
      ∀ k rest, Stops l rest →
        moreOperands ops operand (k + count) first (after ++ rest) =
          moreOperands ops operand k e rest := by
  induction h with
  | operand h => exact ⟨_, [], 0, Nat.le_refl 0, h, fun _ _ _ => rfl⟩
  | @operator tokens left op position tokens' right h hop h' ih =>
      obtain ⟨first, after, count, hcount, hfirst, hmore⟩ := ih
      have hstops : ∀ rest, Stops l (⟨.symbol op.symbol, position⟩ :: (tokens' ++ rest)) := by
        intro rest
        refine stops_symbol (fun next hnext => ?_) position _
        rw [of?_symbol, Option.mem_some] at hnext
        rw [← hnext]
        exact hlayer op hop
      refine ⟨first, after ++ ⟨.symbol op.symbol, position⟩ :: tokens', count + 1, ?_, ?_, ?_⟩
      · rw [List.length_append, List.length_cons]
        omega
      · intro rest _
        rw [List.append_assoc, List.append_assoc, List.cons_append]
        exact hfirst _ (hstops rest)
      · intro k rest hrest
        have e : k + (count + 1) = k + 1 + count := by omega
        rw [e, List.append_assoc, List.cons_append, hmore (k + 1) _ (hstops rest), moreOperands,
          bind_eq_of_ok (takeSymbol?_some (hfind op hop) position _)]
        exact bind_eq_of_ok (h' rest hrest)

theorem moreOperands_of_stops {rest : List Token} (hrest : Stops l rest)
    (hops : ∀ op ∈ ops, l ≤ op.layer) (k : Nat) :
    moreOperands ops operand k e rest = .ok (e, rest) := by
  cases k with
  | zero => rfl
  | succ k =>
      rw [moreOperands, bind_eq_of_ok (hrest.takeOperator hops)]
      rfl

/-- **The parser of a level reads a chain.** -/
theorem reads {outer : Layer} (h : Chain ops operand l tokens e)
    (houter : ∀ op ∈ ops, op.layer = outer) (hlt : outer < l)
    (hfind : ∀ op ∈ ops, operatorOf? ops op.symbol = some op) :
    Reads (level ops operand) outer tokens e := by
  have hlayer : ∀ op ∈ ops, op.layer < l := fun op hop => by rw [houter op hop]; exact hlt
  obtain ⟨first, after, count, hcount, hfirst, hmore⟩ := h.run hlayer hfind
  intro rest hrest
  have hrest' : Stops l rest := hrest.mono (Nat.le_of_lt hlt)
  have hlength : (after ++ rest).length = after.length + rest.length - count + count := by
    rw [List.length_append]
    omega
  unfold level
  rw [bind_eq_of_ok (hfirst rest hrest')]
  show moreOperands ops operand (after ++ rest).length first (after ++ rest) = _
  rw [hlength, hmore _ rest hrest']
  exact moreOperands_of_stops hrest (fun op hop => Nat.le_of_eq (by rw [houter op hop])) _

end Chain

end ShellExpansion.Arith
