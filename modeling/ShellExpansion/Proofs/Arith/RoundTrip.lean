import ShellExpansion.Proofs.Arith.Reading
import ShellExpansion.Proofs.Arith.Tokenizing

/-! # Parsing undoes printing

The tokens of a tree are read back (`ReadBack`) when the parser of every layer that is not tighter
than the tree reads them into the tree.  One lemma for each kind of tree says how its tokens are
read back once those of its parts are; by induction the tokens of every layered, printable tree are
(`readBack_of_lexemes`).  The text of the tree has these tokens, and its subscripts are shorter
texts of the same sort, so that the parser undoes printing (`parse_print`). -/

namespace ShellExpansion.Arith

section kinds
variable (text : String) (index : String → Except Fault Expr) (n : Nat)

/-- The tokens are read into the tree on every layer on which the tree may stand. -/
structure ReadBack (tokens : List Token) (e : Expr) : Prop where
  parses : ∀ l ≤ e.layer, Parses text index n l tokens e
  chained : ∀ l ≤ e.layer, l.operators ≠ [] → Chained text index n l tokens e

variable {text index n} {tokens tokens' : List Token} {e e' : Expr}

/-- It is enough that the tokens are read on the layer of the tree itself. -/
theorem readBack_of_parses (h : Parses text index n e.layer tokens e)
    (hchained : e.layer.operators ≠ [] → Chained text index n e.layer tokens e)
    (hbegins : e.layer = .stepped → BeginsPrimary tokens) : ReadBack text index n tokens e := by
  have hparses := h.climb hbegins
  refine ⟨hparses, fun l hle hl => ?_⟩
  by_cases hlayer : l = e.layer
  · subst hlayer
    exact hchained hl
  · have hnext := Layer.rank_next (lt_stepped_of_operators hl)
    have hne : l.rank ≠ e.layer.rank := fun h => hlayer (Layer.rank_injective h)
    rw [Layer.le_def] at hle
    exact (hparses l.next (Layer.le_def.mpr (by omega))).chained

/-- A tree that is no primary and does not group to the left. -/
theorem readBack_of_reads (hoperators : e.layer.operators = []) (hstepped : e.layer ≠ .stepped)
    (h : ∀ count, tokens.length ≤ count → ∀ rest, Stops e.layer rest →
      reader text index n count e.layer (tokens ++ rest) = .ok (e, rest)) :
    ReadBack text index n tokens e :=
  readBack_of_parses h (fun hne => absurd hoperators hne) fun h => absurd h hstepped

theorem ReadBack.reads (h : ReadBack text index n tokens e) {l : Layer} (hle : l ≤ e.layer) :
    Reads (reader text index n tokens.length l) l tokens e :=
  h.parses l hle tokens.length (Nat.le_refl _)

theorem readBack_stepped (hlayer : e.layer = .stepped) (hbegins : BeginsPrimary tokens)
    (h : ∀ rest, Stops .stepped rest →
      postfixed (primary text index (conditional text index n)) (tokens ++ rest) = .ok (e, rest)) :
    ReadBack text index n tokens e := by
  refine readBack_of_parses ?_ ?_ fun _ => hbegins
  · rw [hlayer]
    exact fun _ _ => h
  · rw [hlayer]
    exact fun hne => absurd rfl hne

theorem readBack_primary (hlayer : e.layer = .stepped) (hbegins : BeginsPrimary tokens)
    (h : ∀ rest, primary text index (conditional text index n) (tokens ++ rest) = .ok (e, rest)) :
    ReadBack text index n tokens e :=
  readBack_stepped hlayer hbegins fun rest hrest => postfixed_of_ok (h rest) hrest

theorem beginsPrimary_target (target : Target) (position : Nat) (rest : List Token) :
    BeginsPrimary (⟨target.lexeme, position⟩ :: rest) := by
  refine ⟨List.cons_ne_nil _ _, fun symbol hsymbol => ?_⟩
  cases target <;> cases hsymbol

theorem readBack_read {target : Target} (h : target.Indexed index) (position : Nat) :
    ReadBack text index n [⟨target.lexeme, position⟩] (.read target) :=
  readBack_primary rfl (beginsPrimary_target target position [])
    fun _ => primary_target _ position h

theorem readBack_postStep {target : Target} (h : target.Indexed index) (op : StepOp)
    (position position' : Nat) :
    ReadBack text index n [⟨target.lexeme, position⟩, ⟨.symbol op.symbol, position'⟩]
      (.postStep op target) :=
  readBack_stepped rfl (beginsPrimary_target target position _)
    fun _ _ => postfixed_step (primary_target _ position h)

theorem readBack_number {value : Int} {number : String} (h : constant text number = .ok value)
    (position : Nat) : ReadBack text index n [⟨.number number, position⟩] (.number value) := by
  refine readBack_primary rfl ⟨List.cons_ne_nil _ _, ?_⟩ fun _ => primary_number h _ position
  intro symbol hsymbol
  cases hsymbol

theorem readBack_parameter (parameter : String) (position : Nat) :
    ReadBack text index n [⟨.parameter parameter, position⟩] (.parameter parameter) := by
  refine readBack_primary rfl ⟨List.cons_ne_nil _ _, ?_⟩ fun _ => rfl
  intro symbol hsymbol
  cases hsymbol

theorem readBack_group (h : ReadBack text index n tokens e) (position position' : Nat) :
    ReadBack text index (n + 2)
      (⟨.symbol "(", position⟩ :: (tokens ++ [⟨.symbol ")", position'⟩])) (.group e) := by
  refine readBack_primary rfl ⟨List.cons_ne_nil _ _, ?_⟩ fun rest => ?_
  · intro symbol hsymbol
    cases hsymbol
    rfl
  · have hinner : Reads (commas text (conditional text index (n + 2))) .comma tokens e :=
      h.reads (Nat.zero_le _)
    rw [List.cons_append, List.append_assoc]
    exact primary_group hinner position position'

/-- A sign is taken off the front of an operand. -/
theorem signed_sign (op : UnaryOp) (position : Nat) (tokens : List Token) :
    signed text index (n + 1) (⟨.symbol op.symbol, position⟩ :: tokens) =
      (do return .unary op (← signed text index n) : Parser Expr) tokens := by
  have hstep : stepOf? op.symbol = none := by cases op <;> decide
  have hsign : unaryOf? op.symbol = some op := by cases op <;> rfl
  have hnone : takeSymbol? stepOf? (⟨.symbol op.symbol, position⟩ :: tokens) = .ok (none, _) :=
    takeSymbol?_none fun symbol hsymbol => by cases hsymbol; exact hstep
  rw [signed, bind_eq_of_ok hnone]
  dsimp only
  rw [bind_eq_of_ok (takeSymbol?_some hsign position tokens)]

theorem readBack_unary (h : ReadBack text index n tokens e) (hlayer : .signed ≤ e.layer)
    (op : UnaryOp) (position : Nat) :
    ReadBack text index (n + 1) (⟨.symbol op.symbol, position⟩ :: tokens) (.unary op e) := by
  refine readBack_of_reads rfl nofun ?_
  intro count _ rest hrest
  have hread : signed text index (n + 1) (tokens ++ rest) = .ok (e, rest) :=
    h.reads hlayer rest hrest
  show signed text index (n + 2) (⟨.symbol op.symbol, position⟩ :: (tokens ++ rest)) = _
  rw [signed_sign]
  exact bind_eq_of_ok hread

theorem readBack_preStep {target : Target} (h : target.Indexed index) (op : StepOp)
    (position position' : Nat) :
    ReadBack text index (n + 1) [⟨.symbol op.symbol, position⟩, ⟨target.lexeme, position'⟩]
      (.preStep op target) := by
  refine readBack_of_reads rfl nofun ?_
  intro count _ rest hrest
  have hread : signed text index (n + 1) (⟨target.lexeme, position'⟩ :: rest) =
      .ok (.read target, rest) :=
    (readBack_read h position').reads (Layer.rank_le _) rest hrest
  have hstep : stepOf? op.symbol = some op := by cases op <;> rfl
  show signed text index (n + 2)
    (⟨.symbol op.symbol, position⟩ :: ⟨target.lexeme, position'⟩ :: rest) = _
  rw [signed, bind_eq_of_ok (takeSymbol?_some hstep position _)]
  exact bind_eq_of_ok hread

theorem readBack_power (h : ReadBack text index n tokens e) (h' : ReadBack text index n tokens' e')
    (hlayer : .signed ≤ e.layer) (hlayer' : .power ≤ e'.layer) (position : Nat) :
    ReadBack text index n (tokens ++ ⟨.symbol BinaryOp.pow.symbol, position⟩ :: tokens')
      (.binary .pow e e') := by
  refine readBack_of_reads rfl nofun ?_
  intro count hcount rest hrest
  rw [List.length_append, List.length_cons] at hcount
  cases count with
  | zero => omega
  | succ count =>
      have hstops : Stops .signed (⟨.symbol BinaryOp.pow.symbol, position⟩ :: (tokens' ++ rest)) :=
        stops_symbol (by decide) position _
      have hbase : signed text index (n + 1)
          (tokens ++ ⟨.symbol BinaryOp.pow.symbol, position⟩ :: (tokens' ++ rest)) = .ok (e, _) :=
        h.reads hlayer _ hstops
      have hexponent : powers (signed text index (n + 1)) count (tokens' ++ rest) =
          .ok (e', rest) :=
        h'.parses .power hlayer' count (by omega) rest hrest
      show powers (signed text index (n + 1)) (count + 1) _ = _
      rw [List.append_assoc, List.cons_append, powers, bind_eq_of_ok hbase,
        bind_eq_of_ok (takeIf_true _ position _), if_pos rfl]
      exact bind_eq_of_ok hexponent

theorem readBack_binary {op : BinaryOp} (hop : op ≠ .pow) (h : ReadBack text index n tokens e)
    (h' : ReadBack text index n tokens' e') (hlayer : op.layer ≤ e.layer)
    (hlayer' : op.layer < e'.layer) (position : Nat) :
    ReadBack text index n (tokens ++ ⟨.symbol op.symbol, position⟩ :: tokens')
      (.binary op e e') := by
  have hmem := mem_operators hop
  have hne : op.layer.operators ≠ [] := List.ne_nil_of_mem hmem
  have hnext := Layer.rank_next (lt_stepped_of_operators hne)
  have hle : op.layer.next ≤ e'.layer := by
    rw [Layer.lt_def] at hlayer'
    exact Layer.le_def.mpr (by omega)
  have hchained : Chained text index n op.layer
      (tokens ++ ⟨.symbol op.symbol, position⟩ :: tokens') (.binary op e e') := by
    intro count hcount
    rw [List.length_append, List.length_cons] at hcount
    have hleft := h.chained op.layer hlayer hne count (by omega)
    exact .operator hleft hmem ((h'.parses _ hle).operand (by omega))
  refine readBack_of_parses (hchained.parses hne) (fun _ => hchained) fun hstepped => ?_
  have hstepped : op.layer = .stepped := hstepped
  rw [hstepped] at hne
  exact absurd rfl hne

theorem readBack_ternary {tokens'' : List Token} {e'' : Expr}
    (h : ReadBack text index (n + 1) tokens e) (h' : ReadBack text index n tokens' e')
    (h'' : ReadBack text index n tokens'' e'') (hlayer : .or ≤ e.layer)
    (hlayer' : .assignment ≤ e'.layer) (hlayer'' : .conditional ≤ e''.layer)
    (position position' : Nat) :
    ReadBack text index (n + 1)
      (tokens ++ ⟨.symbol "?", position⟩ :: (tokens' ++ ⟨.symbol ":", position'⟩ :: tokens''))
      (.ternary e e' e'') := by
  refine readBack_of_reads rfl nofun ?_
  intro count _ rest hrest
  have hmark : Stops .or (⟨.symbol "?", position⟩ ::
      (tokens' ++ ⟨.symbol ":", position'⟩ :: (tokens'' ++ rest))) :=
    stops_symbol (by decide) position _
  have hcolon : Stops .assignment (⟨.symbol ":", position'⟩ :: (tokens'' ++ rest)) :=
    stops_symbol (by decide) position' _
  have hconsequent : assignment text (conditional text index (n + 2))
      (tokens' ++ ⟨.symbol ":", position'⟩ :: (tokens'' ++ rest)) = .ok (e', _) :=
    Parses.operand (l := .comma) (h'.parses .assignment hlayer') (Nat.le_refl _) _ hcolon
  have halternate : conditional text index (n + 2) (tokens'' ++ rest) = .ok (e'', rest) :=
    h''.reads hlayer'' rest hrest
  show conditional text index (n + 3) _ = _
  rw [List.append_assoc, List.cons_append, List.append_assoc, List.cons_append, conditional,
    bind_eq_of_ok ((h.parses .or hlayer).binary hmark), bind_eq_of_ok (takeIf_true "?" position _),
    if_pos rfl, bind_eq_of_ok hconsequent, bind_eq_of_ok (expect_symbol text ":" position' _)]
  exact bind_eq_of_ok halternate

theorem assignmentOf?_symbol {op : Option BinaryOp} (h : ∀ binary ∈ op, binary ∈ compoundOps) :
    assignmentOf? (assignmentSymbol op) = some op := by
  cases op with
  | none => rfl
  | some binary =>
      have hall : ∀ binary ∈ compoundOps,
          assignmentOf? (assignmentSymbol (some binary)) = some (some binary) := by decide
      exact hall binary (h binary rfl)

theorem readBack_assign {target : Target} {op : Option BinaryOp} (htarget : target.Indexed index)
    (hop : ∀ binary ∈ op, binary ∈ compoundOps) (h : ReadBack text index n tokens e)
    (hlayer : .assignment ≤ e.layer) (position position' : Nat) :
    ReadBack text index n
      (⟨target.lexeme, position⟩ :: ⟨.symbol (assignmentSymbol op), position'⟩ :: tokens)
      (.assign op target e) := by
  refine readBack_of_reads rfl nofun ?_
  intro count hcount rest hrest
  rw [List.length_cons, List.length_cons] at hcount
  have hassignment := assignmentOf?_symbol hop
  cases count with
  | zero => omega
  | succ count =>
      have hstops : Stops .conditional
          (⟨.symbol (assignmentSymbol op), position'⟩ :: (tokens ++ rest)) := by
        refine stops_symbol (fun next hnext => ?_) position' _
        rw [of?_of_assignmentOf? hassignment, Option.mem_some] at hnext
        rw [← hnext]
        decide
      have hread : conditional text index (n + 2) (⟨target.lexeme, position⟩ ::
          ⟨.symbol (assignmentSymbol op), position'⟩ :: (tokens ++ rest)) =
            .ok (.read target, _) :=
        (readBack_read htarget position).reads (Layer.rank_le _) _ hstops
      have hvalue : assignments text (conditional text index (n + 2)) count (tokens ++ rest) =
          .ok (e, rest) :=
        h.parses .assignment hlayer count (by omega) rest hrest
      show assignments text (conditional text index (n + 2)) (count + 1) _ = _
      rw [assignments, List.cons_append, List.cons_append, bind_eq_of_ok hread]
      dsimp only
      rw [bind_eq_of_ok (takeSymbol?_some hassignment position' _)]
      exact bind_eq_of_ok hvalue

end kinds

/-! ### All trees -/

section trees
variable {text : String} {index : String → Except Fault Expr} {bound : Nat}

variable (index bound) in
/-- The parser of subscripts undoes printing for texts shorter than the bound. -/
def ParsesIndices : Prop :=
  ∀ e : Expr, e.Layered → e.Printable → e.nesting ≤ maxNesting → e.print.length < bound →
    index e.print = .ok e

theorem indexed_of_printable (hindex : ParsesIndices index bound) :
    ∀ {target : Target}, target.Layered → target.Printable → target.lexeme.text.length ≤ bound →
      target.Indexed index
  | .variable _, _, _, _ => trivial
  | .element array inner subscript, hlayered, ⟨_, hsubscript, hnesting, hprintable⟩, hbound => by
      subst hsubscript
      refine hindex inner hlayered hprintable hnesting ?_
      simp only [Target.lexeme, Lexeme.text, String.length_append] at hbound
      have hbracket : "]".length = 1 := rfl
      omega

theorem map_eq_append_cons {tokens : List Token} {lexemes lexemes' : List Lexeme} {found : Lexeme}
    (h : tokens.map Token.lexeme = lexemes ++ found :: lexemes') :
    ∃ front position back, tokens = front ++ ⟨found, position⟩ :: back ∧
      front.map Token.lexeme = lexemes ∧ back.map Token.lexeme = lexemes' := by
  obtain ⟨front, back', rfl, hfront, hback'⟩ := List.map_eq_append_iff.mp h
  obtain ⟨token, back, rfl, rfl, hback⟩ := List.map_eq_cons_iff.mp hback'
  exact ⟨front, token.position, back, rfl, hfront, hback⟩

theorem map_eq_cons {tokens : List Token} {lexemes : List Lexeme} {found : Lexeme}
    (h : tokens.map Token.lexeme = found :: lexemes) :
    ∃ position back, tokens = ⟨found, position⟩ :: back ∧ back.map Token.lexeme = lexemes := by
  obtain ⟨token, back, rfl, rfl, hback⟩ := List.map_eq_cons_iff.mp h
  exact ⟨token.position, back, rfl, hback⟩

theorem map_eq_singleton {tokens : List Token} {found : Lexeme}
    (h : tokens.map Token.lexeme = [found]) : ∃ position, tokens = [⟨found, position⟩] := by
  obtain ⟨position, back, rfl, hback⟩ := map_eq_cons h
  rw [List.map_eq_nil_iff] at hback
  exact ⟨position, by rw [hback]⟩

/-- **The tokens of a layered, printable tree are read back**, if the nesting of the tree is
allowed. -/
theorem readBack_of_lexemes (hindex : ParsesIndices index bound) :
    ∀ {e : Expr} {tokens : List Token} {n : Nat}, e.Layered → e.Printable → e.nesting ≤ n + 2 →
      (∀ found ∈ e.lexemes, found.text.length ≤ bound) → tokens.map Token.lexeme = e.lexemes →
      ReadBack text index n tokens e
  | .number value, tokens, n, _, hprintable, _, _, htokens => by
      obtain ⟨position, rfl⟩ := map_eq_singleton htokens
      have hvalue : (value.toNat : Int) = value := Int.toNat_of_nonneg hprintable
      have hconstant := constant_numeral text value.toNat
      rw [hvalue] at hconstant
      exact readBack_number hconstant position
  | .read target, tokens, n, hlayered, hprintable, _, hbound, htokens => by
      obtain ⟨position, rfl⟩ := map_eq_singleton htokens
      have hlength := hbound _ (List.mem_singleton.mpr rfl)
      exact readBack_read (indexed_of_printable hindex hlayered hprintable hlength) position
  | .parameter parameter, tokens, n, _, _, _, _, htokens => by
      obtain ⟨position, rfl⟩ := map_eq_singleton htokens
      exact readBack_parameter parameter position
  | .binary op left right, tokens, n, ⟨htakes, hleft, hright⟩, ⟨hleft', hright'⟩, hnesting, hbound,
      htokens => by
      simp only [Expr.nesting] at hnesting
      simp only [Expr.lexemes, List.forall_mem_append, List.forall_mem_cons] at hbound
      obtain ⟨front, position, back, rfl, hfront, hback⟩ := map_eq_append_cons htokens
      have h := readBack_of_lexemes hindex hleft hleft' (n := n) (by omega) hbound.1 hfront
      have h' := readBack_of_lexemes hindex hright hright' (n := n) (by omega) hbound.2.2 hback
      by_cases hop : op = .pow
      · subst hop
        exact readBack_power h h' htakes.1 htakes.2 position
      · obtain ⟨hlayer, hlayer'⟩ := (BinaryOp.takes_iff hop).mp htakes
        exact readBack_binary hop h h' hlayer hlayer' position
  | .unary op operand, tokens, n, ⟨hlayer, hlayered⟩, hprintable, hnesting, hbound, htokens => by
      simp only [Expr.nesting] at hnesting
      simp only [Expr.lexemes, List.forall_mem_cons] at hbound
      obtain ⟨position, back, rfl, hback⟩ := map_eq_cons htokens
      have htwo := operand.two_le_nesting
      cases n with
      | zero => omega
      | succ n =>
          have h := readBack_of_lexemes hindex hlayered hprintable (n := n) (by omega)
            hbound.2 hback
          exact readBack_unary h hlayer op position
  | .preStep op target, tokens, n, hlayered, hprintable, hnesting, hbound, htokens => by
      simp only [Expr.nesting] at hnesting
      simp only [Expr.lexemes, List.forall_mem_cons] at hbound
      obtain ⟨position, back, rfl, hback⟩ := map_eq_cons htokens
      obtain ⟨position', rfl⟩ := map_eq_singleton hback
      cases n with
      | zero => omega
      | succ n =>
          have h := indexed_of_printable hindex hlayered hprintable hbound.2.1
          exact readBack_preStep h op position position'
  | .postStep op target, tokens, n, hlayered, hprintable, _, hbound, htokens => by
      simp only [Expr.lexemes, List.forall_mem_cons] at hbound
      obtain ⟨position, back, rfl, hback⟩ := map_eq_cons htokens
      obtain ⟨position', rfl⟩ := map_eq_singleton hback
      have h := indexed_of_printable hindex hlayered hprintable hbound.1
      exact readBack_postStep h op position position'
  | .ternary condition consequent alternate, tokens, n, ⟨⟨hc, ha, hb⟩, hc', ha', hb'⟩,
      ⟨hc'', ha'', hb''⟩, hnesting, hbound, htokens => by
      simp only [Expr.nesting] at hnesting
      simp only [Expr.lexemes, List.forall_mem_append, List.forall_mem_cons] at hbound
      obtain ⟨front, position, rest, rfl, hfront, hrest⟩ := map_eq_append_cons htokens
      obtain ⟨middle, position', back, rfl, hmiddle, hback⟩ := map_eq_append_cons hrest
      have htwo := consequent.two_le_nesting
      cases n with
      | zero => omega
      | succ n =>
          have h := readBack_of_lexemes hindex hc' hc'' (n := n + 1) (by omega) hbound.1 hfront
          have h' := readBack_of_lexemes hindex ha' ha'' (n := n) (by omega) hbound.2.2.1 hmiddle
          have h'' := readBack_of_lexemes hindex hb' hb'' (n := n) (by omega) hbound.2.2.2.2 hback
          exact readBack_ternary h h' h'' hc ha hb position position'
  | .assign op target value, tokens, n, ⟨hop, hlayer, htarget, hvalue⟩, ⟨htarget', hvalue'⟩,
      hnesting, hbound, htokens => by
      simp only [Expr.lexemes, List.forall_mem_cons] at hbound
      obtain ⟨position, back', rfl, hback'⟩ := map_eq_cons htokens
      obtain ⟨position', back, rfl, hback⟩ := map_eq_cons hback'
      have h := readBack_of_lexemes hindex hvalue hvalue' hnesting hbound.2.2 hback
      have htarget := indexed_of_printable hindex htarget htarget' hbound.1
      exact readBack_assign htarget hop h hlayer position position'
  | .group inner, tokens, n, hlayered, hprintable, hnesting, hbound, htokens => by
      simp only [Expr.nesting] at hnesting
      simp only [Expr.lexemes, List.forall_mem_append, List.forall_mem_cons] at hbound
      obtain ⟨position, back', rfl, hback'⟩ := map_eq_cons htokens
      obtain ⟨front, position', back, rfl, hfront, hback⟩ := map_eq_append_cons hback'
      rw [List.map_eq_nil_iff] at hback
      subst hback
      have htwo := inner.two_le_nesting
      obtain ⟨n, rfl⟩ : ∃ k, n = k + 2 := ⟨n - 2, by omega⟩
      have h := readBack_of_lexemes hindex (e := inner) hlayered hprintable (n := n) (by omega)
        hbound.2.1 hfront
      exact readBack_group h position position'

end trees

/-! ### The parser undoes printing -/

theorem length_le_spaced {found : Lexeme} : ∀ {lexemes : List Lexeme}, found ∈ lexemes →
    found.text.length ≤ (spaced lexemes).length
  | [], h => by cases h
  | [other], h => by
      have hlength := congrArg List.length (toList_spaced_singleton other)
      rw [String.length_toList, String.length_toList] at hlength
      rw [List.mem_singleton.mp h, hlength]
  | other :: next :: more, h => by
      have hlength := congrArg List.length (toList_spaced_cons other next more)
      rw [List.length_append, List.length_cons, String.length_toList, String.length_toList,
        String.length_toList] at hlength
      rcases List.mem_cons.mp h with rfl | h
      · omega
      · have hmore := length_le_spaced h
        omega

theorem whole_of_readBack {text : String} {index : String → Except Fault Expr} {e : Expr}
    {tokens : List Token} (h : ReadBack text index 62 tokens e) (hne : tokens ≠ []) :
    whole text index tokens = .ok (e, []) := by
  have hread : commas text (conditional text index maxNesting) tokens = .ok (e, []) := by
    have hcomma := h.reads (l := .comma) (Nat.zero_le _) [] (stops_nil _)
    rwa [List.append_nil] at hcomma
  have hempty : tokens.isEmpty = false := List.isEmpty_eq_false_iff.mpr hne
  unfold whole
  rw [bind_eq_of_ok (get_eq tokens), hempty]
  simp only [Bool.false_eq_true, if_false]
  rw [bind_eq_of_ok hread, bind_eq_of_ok (get_eq [])]
  rfl

/-- A text is parsed if its tokens are read back. -/
theorem parseNested_of_readBack {depth : Nat} {text : String} {tokens : List Token} {e : Expr}
    (htokenize : tokenize text = .ok tokens)
    (h : ReadBack text (parseNested depth) 62 tokens e) (hne : tokens ≠ []) :
    parseNested (depth + 1) text = .ok e := by
  rw [parseNested_of_tokenize htokenize, whole_of_readBack h hne]
  rfl

theorem parseNested_print (depth : Nat) : ParsesIndices (parseNested depth) depth := by
  induction depth with
  | zero =>
      intro e _ _ _ hlength
      exact absurd hlength (Nat.not_lt_zero _)
  | succ depth ih =>
      intro e hlayered hprintable hnesting hlength
      obtain ⟨tokens, htokenize, htokens⟩ :=
        tokenize_spaced (Expr.Printable.lexemes hlayered hprintable)
      have hbound : ∀ found ∈ e.lexemes, found.text.length ≤ depth := fun found hfound =>
        Nat.le_trans (length_le_spaced hfound) (Nat.le_of_lt_succ hlength)
      have hread : ReadBack e.print (parseNested depth) 62 tokens e :=
        readBack_of_lexemes ih hlayered hprintable hnesting hbound htokens
      have hne : tokens ≠ [] := by
        rintro rfl
        exact e.lexemes_ne_nil htokens.symm
      exact parseNested_of_readBack htokenize hread hne

/-! ### Integers -/

/-- An integer as an expression. -/
def Expr.ofInt : Int → Expr
  | .ofNat n => .number n
  | .negSucc n => .unary .neg (.number (n + 1 : ℕ))

/-- An integer as it is written in expressions. -/
def integerText : Int → String
  | .ofNat n => numeral n
  | .negSucc n => "-" ++ numeral (n + 1)

/-- The tokens of an integer are read back. -/
theorem tokensFrom_integerText (c : Int) (position : ℕ) : ∃ tokens, tokens ≠ [] ∧
    tokensFrom position (integerText c).toList = .ok tokens ∧
      ∀ text index n, ReadBack text index (n + 1) tokens (Expr.ofInt c) := by
  have hends : EndsLexeme [] := .inl rfl
  cases c with
  | ofNat n =>
      exact ⟨_, List.cons_ne_nil _ _, (readsLexeme_numeral n hends).tokensFrom_last position,
        fun text index _ => readBack_number (constant_numeral text n) position⟩
  | negSucc n =>
      have hsign : ReadsLexeme "-".toList (.symbol "-") (numeral (n + 1)).toList := by
        obtain ⟨c, tail, hlist, -⟩ := numeral_eq_cons (n + 1)
        have hword := isWordChar_of_mem_numeral c (by rw [hlist]; exact List.mem_cons_self)
        rw [hlist]
        exact readsLexeme_symbol (by decide) (endsSymbol_of_isWordChar hword tail)
      obtain ⟨position', hfirst⟩ := hsign.tokensFrom position
      have hlast := (readsLexeme_numeral (n + 1) hends).tokensFrom_last position'
      have hlayer : Layer.signed ≤ (Expr.number (n + 1 : ℕ)).layer :=
        show Layer.signed ≤ .stepped by decide
      refine ⟨[⟨.symbol "-", position⟩, ⟨.number (numeral (n + 1)), position'⟩],
        List.cons_ne_nil _ _, ?_, fun text index n' => ?_⟩
      · rw [integerText, String.toList_append, hfirst, hlast]
        rfl
      · exact readBack_unary (readBack_number (constant_numeral text _) position') hlayer .neg
          position

/-- **The text of an integer is read as the integer.** -/
theorem parse_integerText (c : Int) : parse (integerText c) = .ok (.ofInt c) := by
  obtain ⟨tokens, hne, htokens, hread⟩ := tokensFrom_integerText c 0
  have htokenize : tokenize (integerText c) = .ok tokens := by
    rw [tokenize, htokens]
    rfl
  exact parseNested_of_readBack htokenize (hread _ _ _) hne

/-- **Parsing undoes printing**: a layered, printable tree whose nesting is allowed is read back
from its text. -/
theorem parse_print (e : Expr) (hlayered : e.Layered) (hprintable : e.Printable)
    (hnesting : e.nesting ≤ maxNesting) : parse e.print = .ok e :=
  parseNested_print (e.print.length + 1) e hlayered hprintable hnesting (Nat.lt_succ_self _)

/-- An assignment to an element, of a conditional with a power, a comma and steps in it. -/
def elementAssignment : Expr :=
  .assign (some .add) (.element "m" (.binary .add (.read (.variable "i")) (.number 1)) "i + 1")
    (.ternary (.binary .pow (.unary .neg (.read (.variable "x"))) (.number 2))
      (.group (.binary .comma (.parameter "$y") (.postStep .increment (.variable "n"))))
      (.preStep .decrement (.variable "z")))

theorem parse_print_elementAssignment :
    parse "m[i + 1] += - x ** 2 ? ( $y , n ++ ) : -- z" = .ok elementAssignment := by
  have hname : ∀ c : Char, (Text.isLetter c || c == '_') = true → IsName (String.ofList [c]) :=
    fun c hc => ⟨c, [], String.toList_ofList, hc, fun d hd => by cases hd⟩
  have hlayered : elementAssignment.Layered := by
    simp only [elementAssignment, Expr.Layered, Target.Layered, BinaryOp.Takes, Expr.layer]
    decide
  have hone : (0 : Int) ≤ 1 := by decide
  have htwo : (0 : Int) ≤ 2 := by decide
  have hsubscript :
      "i + 1" = (Expr.binary .add (.read (.variable "i")) (.number 1)).print := by decide +kernel
  have hprintable : elementAssignment.Printable :=
    ⟨⟨hname 'm' (by decide), hsubscript, by decide, hname 'i' (by decide), hone⟩,
      ⟨hname 'x' (by decide), htwo⟩, ⟨⟨"y", hname 'y' (by decide), rfl⟩, hname 'n' (by decide)⟩,
      hname 'z' (by decide)⟩
  have hprint : elementAssignment.print = "m[i + 1] += - x ** 2 ? ( $y , n ++ ) : -- z" := by
    decide +kernel
  rw [← hprint]
  exact parse_print elementAssignment hlayered hprintable (by decide)

end ShellExpansion.Arith
