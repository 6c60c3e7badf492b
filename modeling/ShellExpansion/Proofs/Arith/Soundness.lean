import Mathlib.Data.List.Forall2
import ShellExpansion.Proofs.Arith.Reading
import ShellExpansion.Proofs.Arith.Tokenizing

/-! # The parser accounts for every token

A tree is spelt by tokens (`Spells`) when its lexemes from left to right are theirs, constants being
compared by their values.  A parser is sound on a layer (`Sound`) when every expression that it
reads is spelt by exactly the tokens it took, is layered, and stands on that layer or on a tighter
one.  One lemma for each parser says that it is sound if its parts are; by induction on the nesting
all of them are, so that an accepted text is spelt by its tokens (`parse_spelt`). -/

namespace ShellExpansion.Arith

/-! ### Spelling -/

/-- The lexemes say the same: constants have one value, and all others are equal. -/
def Lexeme.Agrees (text : String) : Lexeme → Lexeme → Prop
  | .number written, .number found =>
    ∃ value, constant text written = .ok value ∧ constant text found = .ok value
  | written, found => written = found

/-- The lexemes of the tree are those of the tokens, one by one. -/
def Spells (text : String) (tokens : List Token) (e : Expr) : Prop :=
  List.Forall₂ (Lexeme.Agrees text) e.lexemes (tokens.map Token.lexeme)

section spelling
variable {text : String}

theorem agrees_symbol (symbol : String) :
    (Lexeme.symbol symbol).Agrees text (.symbol symbol) := rfl

theorem agrees_target (target : Target) : target.lexeme.Agrees text target.lexeme := by
  cases target <;> rfl

/-- A constant agrees with the numeral of its value, which is not negative. -/
theorem agrees_numeral {number : String} {value : Int} (hminus : '-' ∉ number.toList)
    (h : constant text number = .ok value) :
    (Lexeme.number (numeral value.toNat)).Agrees text (.number number) := by
  have hvalue : (value.toNat : Int) = value := Int.toNat_of_nonneg (constant_nonneg hminus h)
  have hnumeral := constant_numeral text value.toNat
  rw [hvalue] at hnumeral
  exact ⟨value, hnumeral, h⟩

variable {tokens tokens' : List Token} {e e' : Expr}

theorem spells_target (target : Target) (position : Nat) :
    Spells text [⟨target.lexeme, position⟩] (.read target) :=
  .cons (agrees_target target) .nil

theorem spells_binary {op : BinaryOp} (h : Spells text tokens e) (h' : Spells text tokens' e')
    (position : Nat) :
    Spells text (tokens ++ ⟨.symbol op.symbol, position⟩ :: tokens') (.binary op e e') := by
  unfold Spells
  rw [List.map_append]
  exact List.rel_append h (.cons (agrees_symbol _) h')

theorem spells_group (h : Spells text tokens e) (position position' : Nat) :
    Spells text (⟨.symbol "(", position⟩ :: (tokens ++ [⟨.symbol ")", position'⟩])) (.group e) := by
  unfold Spells
  rw [List.map_cons, List.map_append]
  exact .cons (agrees_symbol _) (List.rel_append h (.cons (agrees_symbol _) .nil))

theorem spells_ternary {tokens'' : List Token} {e'' : Expr} (h : Spells text tokens e)
    (h' : Spells text tokens' e') (h'' : Spells text tokens'' e'') (position position' : Nat) :
    Spells text (tokens ++ ⟨.symbol "?", position⟩ ::
      (tokens' ++ ⟨.symbol ":", position'⟩ :: tokens'')) (.ternary e e' e'') := by
  unfold Spells
  rw [List.map_append, List.map_cons, List.map_append]
  exact List.rel_append h
    (.cons (agrees_symbol _) (List.rel_append h' (.cons (agrees_symbol _) h'')))

end spelling

/-! ### Tokens without signs -/

/-- No constant among the tokens has a minus sign in it. -/
def Unsigned (tokens : List Token) : Prop :=
  ∀ token ∈ tokens, ∀ number, token.lexeme = .number number → '-' ∉ number.toList

theorem Unsigned.of_append {tokens tokens' : List Token} (h : Unsigned (tokens ++ tokens')) :
    Unsigned tokens' :=
  fun token htoken => h token (List.mem_append_right tokens htoken)

theorem unsigned_of_tokenize {text : String} {tokens : List Token}
    (h : tokenize text = .ok tokens) : Unsigned tokens := by
  intro token htoken number hnumber
  exact (isConstantText_of_tokenize h htoken hnumber).not_mem (by decide) (by decide)

/-! ### What parsers took -/

section taking
variable {α β : Type} {tokens rest : List Token}

theorem exists_of_parser_bind {p : Parser α} {f : α → Parser β} {b : β}
    (h : (p >>= f) tokens = .ok (b, rest)) :
    ∃ a middle, p tokens = .ok (a, middle) ∧ f a middle = .ok (b, rest) := by
  obtain ⟨⟨a, middle⟩, hp, hf⟩ := exists_of_bind_eq_ok h
  exact ⟨a, middle, hp, hf⟩

theorem of_takeSymbol?_none {f : String → Option α} (h : takeSymbol? f tokens = .ok (none, rest)) :
    rest = tokens := by
  unfold takeSymbol? at h
  split at h
  · split at h <;> cases h
    rfl
  · cases h
    rfl

theorem of_takeSymbol?_some {f : String → Option α} {a : α}
    (h : takeSymbol? f tokens = .ok (some a, rest)) :
    ∃ symbol position, tokens = ⟨.symbol symbol, position⟩ :: rest ∧ f symbol = some a := by
  unfold takeSymbol? at h
  split at h
  · next symbol position _ =>
      split at h
      · next hf =>
          cases h
          exact ⟨symbol, position, rfl, hf⟩
      · cases h
  · cases h

theorem of_takeIf_false {symbol : String} (h : takeIf symbol tokens = .ok (false, rest)) :
    rest = tokens := by
  obtain ⟨found, middle, htake, hfound⟩ := exists_of_parser_bind h
  cases found with
  | none =>
      cases hfound
      exact of_takeSymbol?_none htake
  | some _ => cases hfound

theorem of_takeIf_true {symbol : String} (h : takeIf symbol tokens = .ok (true, rest)) :
    ∃ position, tokens = ⟨.symbol symbol, position⟩ :: rest := by
  obtain ⟨found, middle, htake, hfound⟩ := exists_of_parser_bind h
  cases found with
  | none => cases hfound
  | some _ =>
      cases hfound
      obtain ⟨other, position, rfl, hother⟩ := of_takeSymbol?_some htake
      split_ifs at hother with heq
      exact ⟨position, by rw [heq]⟩

theorem of_expect {text symbol : String} (h : expect text symbol tokens = .ok ((), rest)) :
    ∃ position, tokens = ⟨.symbol symbol, position⟩ :: rest := by
  obtain ⟨found, middle, htake, hfound⟩ := exists_of_parser_bind h
  cases found with
  | false => cases hfound
  | true =>
      cases hfound
      exact of_takeIf_true htake

end taking

theorem symbol_of_operatorOf? {ops : List BinaryOp} {symbol : String} {op : BinaryOp}
    (h : operatorOf? ops symbol = some op) : op.symbol = symbol := by
  have hsymbol := List.find?_some h
  exact of_decide_eq_true hsymbol

theorem symbol_of_stepOf? {symbol : String} {op : StepOp} (h : stepOf? symbol = some op) :
    op.symbol = symbol := by
  have hsymbol := List.find?_some h
  exact of_decide_eq_true hsymbol

theorem symbol_of_unaryOf? {symbol : String} {op : UnaryOp} (h : unaryOf? symbol = some op) :
    op.symbol = symbol := by
  have hsymbol := List.find?_some h
  exact of_decide_eq_true hsymbol

theorem symbol_of_assignmentOf? {symbol : String} {op : Option BinaryOp}
    (h : assignmentOf? symbol = some op) :
    assignmentSymbol op = symbol ∧ ∀ binary ∈ op, binary ∈ compoundOps := by
  unfold assignmentOf? at h
  split_ifs at h with heq
  · cases h
    exact ⟨heq.symm, nofun⟩
  · obtain ⟨binary, hfind, rfl⟩ := Option.map_eq_some_iff.mp h
    have hsymbol := List.find?_some hfind
    refine ⟨of_decide_eq_true hsymbol, fun other hother => ?_⟩
    cases hother
    exact List.mem_of_find?_eq_some hfind

/-! ### Sound parsers -/

section soundness
variable (text : String)

/-- The expression is spelt by the tokens in front of the rest, is layered, and stands on the layer
or on a tighter one. -/
structure SpeltBefore (l : Layer) (rest tokens : List Token) (e : Expr) : Prop where
  spelt : ∃ used, tokens = used ++ rest ∧ Spells text used e
  layer : l ≤ e.layer
  layered : e.Layered

/-- What the parser reads is spelt by the tokens that it takes. -/
def Sound (l : Layer) (p : Parser Expr) : Prop :=
  ∀ ⦃tokens rest : List Token⦄ ⦃e : Expr⦄, Unsigned tokens → p tokens = .ok (e, rest) →
    SpeltBefore text l rest tokens e

variable {text} {l : Layer} {p : Parser Expr} {tokens rest : List Token} {e : Expr}

theorem SpeltBefore.unsigned (h : SpeltBefore text l rest tokens e) (hunsigned : Unsigned tokens) :
    Unsigned rest := by
  obtain ⟨used, rfl, -⟩ := h.spelt
  exact hunsigned.of_append

theorem Unsigned.tail {token : Token} (h : Unsigned ([token] ++ rest)) : Unsigned rest :=
  h.of_append

theorem Sound.mono {l' : Layer} (h : Sound text l' p) (hle : l ≤ l') : Sound text l p := by
  intro tokens rest e hunsigned hp
  obtain ⟨hspelt, hlayer, hlayered⟩ := h hunsigned hp
  exact ⟨hspelt, Nat.le_trans hle hlayer, hlayered⟩

theorem sound_fail (problem : SyntaxProblem) : Sound text l (fail text problem) := by
  intro tokens rest e _ h
  cases h

/-- Operators of a layer with their right operands go on a left operand that stands on the layer. -/
theorem moreOperands_sound {ops : List BinaryOp} {inner : Layer} (hoperand : Sound text inner p)
    (hops : ∀ op ∈ ops, op.layer = l ∧ op ≠ .pow) (hlt : l < inner) {all : List Token}
    (hunsigned : Unsigned all) {rest : List Token} {e : Expr} :
    ∀ {count : Nat} {left : Expr} {tokens : List Token}, SpeltBefore text l tokens all left →
      moreOperands ops p count left tokens = .ok (e, rest) → SpeltBefore text l rest all e
  | 0, left, tokens, hleft, h => by
      cases h
      exact hleft
  | count + 1, left, tokens, hleft, h => by
      obtain ⟨found, middle, htake, hfound⟩ := exists_of_parser_bind h
      cases found with
      | none =>
          cases hfound
          rw [of_takeSymbol?_none htake]
          exact hleft
      | some op =>
          obtain ⟨right, middle', hparse, hmore⟩ := exists_of_parser_bind hfound
          obtain ⟨symbol, position, rfl, hop⟩ := of_takeSymbol?_some htake
          have hright := hoperand (hleft.unsigned hunsigned).tail hparse
          have hsymbol := symbol_of_operatorOf? hop
          obtain ⟨hlayer, hpow⟩ := hops op (List.mem_of_find?_eq_some hop)
          obtain ⟨used, rfl, hspelt⟩ := hleft.spelt
          obtain ⟨used', rfl, hspelt'⟩ := hright.spelt
          subst hsymbol
          refine moreOperands_sound hoperand hops hlt hunsigned ⟨?_, ?_, ?_⟩ hmore
          · exact ⟨_, by simp, spells_binary hspelt hspelt' position⟩
          · exact Nat.le_of_eq (by rw [← hlayer]; rfl)
          · refine ⟨?_, hleft.layered, hright.layered⟩
            rw [BinaryOp.takes_iff hpow, hlayer]
            exact ⟨hleft.layer, Nat.lt_of_lt_of_le hlt hright.layer⟩

theorem level_sound {ops : List BinaryOp} {inner : Layer} (hoperand : Sound text inner p)
    (hops : ∀ op ∈ ops, op.layer = l ∧ op ≠ .pow) (hlt : l < inner) :
    Sound text l (level ops p) := by
  intro tokens rest e hunsigned h
  obtain ⟨first, middle, hfirst, hmore⟩ := exists_of_parser_bind h
  have hleft := hoperand.mono (Nat.le_of_lt hlt) hunsigned hfirst
  exact moreOperands_sound hoperand hops hlt hunsigned hleft hmore

theorem powers_sound (hoperand : Sound text .signed p) :
    ∀ count, Sound text .power (powers p count)
  | 0 => hoperand.mono (by decide)
  | count + 1 => by
      intro tokens rest e hunsigned h
      obtain ⟨base, middle, hparse, hmore⟩ := exists_of_parser_bind h
      obtain ⟨found, middle', htake, hfound⟩ := exists_of_parser_bind hmore
      have hbase := hoperand hunsigned hparse
      cases found with
      | false =>
          cases hfound
          rw [of_takeIf_false htake]
          exact hoperand.mono (by decide) hunsigned hparse
      | true =>
          obtain ⟨right, rest', hpowers, hpair⟩ := exists_of_parser_bind hfound
          cases hpair
          obtain ⟨position, rfl⟩ := of_takeIf_true htake
          have hright := powers_sound hoperand count (hbase.unsigned hunsigned).tail hpowers
          obtain ⟨used, rfl, hspelt⟩ := hbase.spelt
          obtain ⟨used', rfl, hspelt'⟩ := hright.spelt
          exact ⟨⟨_, by simp, spells_binary hspelt hspelt' position⟩, Nat.le_refl _,
            ⟨hbase.layer, hright.layer⟩, hbase.layered, hright.layered⟩

/-- The levels of the binary operators are sound, each over the next tighter one. -/
theorem levels_sound (hpowers : Sound text .power p) : ∀ l ≤ Layer.power, .or ≤ l →
    Sound text l ((binaryLevels.drop (l.rank - Layer.or.rank)).foldr level p) := by
  refine Layer.descend (fun _ => hpowers) fun l hlt hnext hor => ?_
  have hor' : Layer.or ≤ l.next := by
    have hrank := Layer.rank_next (Nat.lt_trans hlt (by decide))
    rw [Layer.le_def] at hor ⊢
    omega
  have hnext := hnext hor'
  cases l with
  | comma | assignment | conditional => exact absurd hor (by decide)
  | power | signed | stepped => exact absurd hlt (by decide)
  | _ => exact level_sound hnext (by decide) (by decide)

theorem binary_sound (hoperand : Sound text .signed p) : Sound text .or (binary p) := by
  intro tokens rest e hunsigned h
  exact levels_sound (powers_sound hoperand tokens.length) .or (by decide) (by decide) hunsigned h

/-- A target and an assignment behind it are spelt by their tokens and those of the value. -/
theorem assignments_sound (hconditional : Sound text .conditional p) :
    ∀ count, Sound text .assignment (assignments text p count)
  | 0 => hconditional.mono (by decide)
  | count + 1 => by
      intro tokens rest e hunsigned h
      obtain ⟨node, middle, hparse, hnode⟩ := exists_of_parser_bind h
      have hcondition := hconditional.mono (l := .assignment) (by decide) hunsigned hparse
      cases node with
      | read target =>
          obtain ⟨found, middle', htake, hfound⟩ := exists_of_parser_bind hnode
          cases found with
          | none =>
              cases hfound
              rw [of_takeSymbol?_none htake]
              exact hcondition
          | some op =>
              obtain ⟨value, rest', hvalue, hpair⟩ := exists_of_parser_bind hfound
              cases hpair
              obtain ⟨symbol, position, rfl, hop⟩ := of_takeSymbol?_some htake
              have hvalue := assignments_sound hconditional count
                (hcondition.unsigned hunsigned).tail hvalue
              obtain ⟨rfl, hcompound⟩ := symbol_of_assignmentOf? hop
              obtain ⟨used, rfl, hspelt⟩ := hcondition.spelt
              obtain ⟨used', rfl, hspelt'⟩ := hvalue.spelt
              refine ⟨⟨used ++ ⟨.symbol (assignmentSymbol op), position⟩ :: used', by simp, ?_⟩,
                Nat.le_refl _, hcompound, hvalue.layer, hcondition.layered, hvalue.layered⟩
              unfold Spells
              rw [List.map_append]
              exact List.rel_append hspelt (.cons (agrees_symbol _) hspelt')
      | _ =>
          obtain ⟨symbol, middle', hnext, hfound⟩ := exists_of_parser_bind hnode
          rw [nextSymbol?_eq] at hnext
          cases hnext
          split_ifs at hfound
          · cases hfound
          · cases hfound
            exact hcondition

theorem assignment_sound (hconditional : Sound text .conditional p) :
    Sound text .assignment (assignment text p) := by
  intro tokens rest e hunsigned h
  exact assignments_sound hconditional tokens.length hunsigned h

theorem commas_sound (hconditional : Sound text .conditional p) :
    Sound text .comma (commas text p) :=
  level_sound (assignment_sound hconditional) (by decide) (by decide)

/-! ### Operands and conditionals -/

variable {index : String → Except Fault Expr}

theorem primary_sound (hindex : ∀ subscript e, index subscript = .ok e → e.Layered)
    (hconditional : Sound text .conditional p) : Sound text .stepped (primary text index p) := by
  intro tokens rest e hunsigned h
  obtain ⟨_, _, hget, hread⟩ := exists_of_parser_bind h
  cases hget
  split at hread
  · next number position more =>
      obtain ⟨_, _, hset, hvalue⟩ := exists_of_parser_bind hread
      cases hset
      obtain ⟨value, _, hlift, hpair⟩ := exists_of_parser_bind hvalue
      cases hpair
      obtain ⟨_, hconstant, hpair⟩ := exists_of_bind_eq_ok hlift
      cases hpair
      have hminus := hunsigned _ List.mem_cons_self number rfl
      exact ⟨⟨[_], rfl, .cons (agrees_numeral hminus hconstant) .nil⟩, Nat.le_refl _, trivial⟩
  · next name position more =>
      cases hread
      exact ⟨⟨_, rfl, spells_target (.variable name) position⟩, Nat.le_refl _, trivial⟩
  · next name subscript position more =>
      obtain ⟨_, _, hset, hvalue⟩ := exists_of_parser_bind hread
      cases hset
      cases hresult : index subscript with
      | ok inner =>
          rw [hresult] at hvalue
          cases hvalue
          exact ⟨⟨_, rfl, spells_target (.element name inner subscript) position⟩, Nat.le_refl _,
            hindex subscript inner hresult⟩
      | error fault =>
          rw [hresult] at hvalue
          -- Only an arithmetic error makes the subscript a key.
          cases fault with
          | error cause =>
              cases cause with
              | arithmetic _ _ =>
                  cases hvalue
                  exact ⟨⟨_, rfl, spells_target (.keyed name subscript) position⟩, Nat.le_refl _,
                    trivial⟩
              | _ => cases hvalue
          | _ => cases hvalue
  · next parameter position more =>
      cases hread
      exact ⟨⟨[_], rfl, .cons rfl .nil⟩, Nat.le_refl _, trivial⟩
  · obtain ⟨found, middle, htake, hfound⟩ := exists_of_parser_bind hread
    cases found with
    | false => cases hfound
    | true =>
        obtain ⟨inner, middle', hinner, hclose⟩ := exists_of_parser_bind hfound
        obtain ⟨_, rest', hexpect, hpair⟩ := exists_of_parser_bind hclose
        cases hpair
        obtain ⟨position, rfl⟩ := of_takeIf_true htake
        obtain ⟨position', rfl⟩ := of_expect hexpect
        have hinner := commas_sound hconditional hunsigned.tail hinner
        obtain ⟨used, rfl, hspelt⟩ := hinner.spelt
        exact ⟨⟨_, by simp, spells_group hspelt position position'⟩, Nat.le_refl _, hinner.layered⟩

theorem postfixed_sound (hoperand : Sound text .stepped p) : Sound text .stepped (postfixed p) := by
  intro tokens rest e hunsigned h
  obtain ⟨node, middle, hparse, hnode⟩ := exists_of_parser_bind h
  have hread := hoperand hunsigned hparse
  cases node with
  | read target =>
      obtain ⟨found, middle', htake, hfound⟩ := exists_of_parser_bind hnode
      cases found with
      | none =>
          cases hfound
          rw [of_takeSymbol?_none htake]
          exact hread
      | some op =>
          cases hfound
          obtain ⟨symbol, position, rfl, hop⟩ := of_takeSymbol?_some htake
          have hsymbol := symbol_of_stepOf? hop
          subst hsymbol
          obtain ⟨used, rfl, hspelt⟩ := hread.spelt
          refine ⟨⟨used ++ [⟨.symbol op.symbol, position⟩], by simp, ?_⟩, Nat.le_refl _,
            hread.layered⟩
          unfold Spells
          rw [List.map_append]
          exact List.rel_append hspelt (.cons (agrees_symbol _) .nil)
  | _ =>
      cases hnode
      exact hread

variable {nesting : Nat}

theorem conditional_sound (hconditional : Sound text .conditional (conditional text index nesting))
    (hsigned : Sound text .signed (signed text index nesting)) :
    Sound text .conditional (conditional text index (nesting + 1)) := by
  intro tokens rest e hunsigned h
  obtain ⟨condition, middle, hparse, hmore⟩ := exists_of_parser_bind h
  obtain ⟨found, middle', htake, hfound⟩ := exists_of_parser_bind hmore
  have hcondition := binary_sound hsigned hunsigned hparse
  cases found with
  | false =>
      cases hfound
      rw [of_takeIf_false htake]
      exact (binary_sound hsigned).mono (by decide) hunsigned hparse
  | true =>
      obtain ⟨consequent, _, hconsequent, hmore⟩ := exists_of_parser_bind hfound
      obtain ⟨_, _, hexpect, hmore⟩ := exists_of_parser_bind hmore
      obtain ⟨alternate, _, halternate, hpair⟩ := exists_of_parser_bind hmore
      cases hpair
      obtain ⟨position, rfl⟩ := of_takeIf_true htake
      obtain ⟨position', rfl⟩ := of_expect hexpect
      have hunsigned := (hcondition.unsigned hunsigned).tail
      have hconsequent := assignment_sound hconditional hunsigned hconsequent
      have hunsigned := (hconsequent.unsigned hunsigned).tail
      have halternate := hconditional hunsigned halternate
      obtain ⟨used, rfl, hspelt⟩ := hcondition.spelt
      obtain ⟨used', rfl, hspelt'⟩ := hconsequent.spelt
      obtain ⟨used'', rfl, hspelt''⟩ := halternate.spelt
      exact ⟨⟨_, by simp, spells_ternary hspelt hspelt' hspelt'' position position'⟩,
        Nat.le_refl _, ⟨hcondition.layer, hconsequent.layer, halternate.layer⟩,
        hcondition.layered, hconsequent.layered, halternate.layered⟩

theorem signed_sound (hindex : ∀ subscript e, index subscript = .ok e → e.Layered)
    (hconditional : Sound text .conditional (conditional text index nesting))
    (hsigned : Sound text .signed (signed text index nesting)) :
    Sound text .signed (signed text index (nesting + 1)) := by
  intro tokens rest e hunsigned h
  obtain ⟨step, middle, htake, hstep⟩ := exists_of_parser_bind h
  cases step with
  | some op =>
      obtain ⟨operand, _, hparse, hoperand⟩ := exists_of_parser_bind hstep
      obtain ⟨symbol, position, rfl, hop⟩ := of_takeSymbol?_some htake
      have hread := hsigned hunsigned.tail hparse
      have hsymbol := symbol_of_stepOf? hop
      subst hsymbol
      cases operand with
      | read target =>
          cases hoperand
          obtain ⟨used, rfl, hspelt⟩ := hread.spelt
          exact ⟨⟨⟨.symbol op.symbol, position⟩ :: used, rfl, .cons (agrees_symbol _) hspelt⟩,
            Nat.le_refl _, hread.layered⟩
      | _ => cases hoperand
  | none =>
      obtain ⟨sign, middle', htake', hsign⟩ := exists_of_parser_bind hstep
      obtain rfl := of_takeSymbol?_none htake
      cases sign with
      | some op =>
          obtain ⟨operand, _, hparse, hpair⟩ := exists_of_parser_bind hsign
          cases hpair
          obtain ⟨symbol, position, rfl, hop⟩ := of_takeSymbol?_some htake'
          have hread := hsigned hunsigned.tail hparse
          have hsymbol := symbol_of_unaryOf? hop
          subst hsymbol
          obtain ⟨used, rfl, hspelt⟩ := hread.spelt
          exact ⟨⟨⟨.symbol op.symbol, position⟩ :: used, rfl, .cons (agrees_symbol _) hspelt⟩,
            Nat.le_refl _, hread.layer, hread.layered⟩
      | none =>
          obtain rfl := of_takeSymbol?_none htake'
          exact (postfixed_sound (primary_sound hindex hconditional)).mono (by decide)
            hunsigned hsign

/-- Conditionals and signed operands are sound at every nesting, since each is read with those of
the next smaller one. -/
theorem conditional_signed_sound (hindex : ∀ subscript e, index subscript = .ok e → e.Layered) :
    ∀ nesting, Sound text .conditional (conditional text index nesting) ∧
      Sound text .signed (signed text index nesting)
  | 0 => ⟨sound_fail _, sound_fail _⟩
  | nesting + 1 => by
      obtain ⟨hconditional, hsigned⟩ := conditional_signed_sound hindex nesting
      exact ⟨conditional_sound hconditional hsigned, signed_sound hindex hconditional hsigned⟩

end soundness

/-! ### Accepted texts -/

theorem parseNested_spelt (nesting : Nat) : ∀ {text : String} {e : Expr},
    parseNested nesting text = .ok e → ∃ tokens, tokenize text = .ok tokens ∧ e.Layered ∧
      (tokens ≠ [] → Spells text tokens e) := by
  induction nesting with
  | zero =>
      intro text e h
      cases h
  | succ nesting ih =>
      intro text e h
      obtain ⟨tokens, htokens, hrun⟩ := exists_of_bind_eq_ok h
      have htokens := eq_ok_of_mapError htokens
      have hunsigned := unsigned_of_tokenize htokens
      obtain ⟨⟨_, rest⟩, hwhole, heq⟩ := exists_of_map_eq_ok hrun
      dsimp only at heq
      subst heq
      refine ⟨tokens, htokens, ?_⟩
      obtain ⟨_, _, hget, hread⟩ := exists_of_parser_bind hwhole
      cases hget
      cases tokens with
      | nil =>
          cases hread
          exact ⟨trivial, fun hne => absurd rfl hne⟩
      | cons token tokens =>
          obtain ⟨node, middle, hcommas, hend⟩ := exists_of_parser_bind hread
          obtain ⟨_, _, hget, hnode⟩ := exists_of_parser_bind hend
          cases hget
          have hindex : ∀ subscript e, parseNested nesting subscript = .ok e → e.Layered := by
            intro subscript e hsubscript
            obtain ⟨_, _, hlayered, _⟩ := ih hsubscript
            exact hlayered
          have hconditional : Sound text .conditional
              (conditional text (parseNested nesting) maxNesting) :=
            (conditional_signed_sound hindex maxNesting).1
          have hsound := commas_sound hconditional hunsigned hcommas
          cases middle with
          | cons _ _ => cases hnode
          | nil =>
              cases hnode
              obtain ⟨used, hused, hspelt⟩ := hsound.spelt
              rw [List.append_nil] at hused
              exact ⟨hsound.layered, fun _ => hused ▸ hspelt⟩

/-- **An accepted text is spelt by its tokens**: the lexemes of the tree from left to right are
those of the text, none missing, added or moved, and every operand stands where its operator takes
it. -/
theorem parse_spelt {text : String} {e : Expr} (h : parse text = .ok e) :
    ∃ tokens, tokenize text = .ok tokens ∧ e.Layered ∧ (tokens ≠ [] → Spells text tokens e) :=
  parseNested_spelt _ h

/-- An element raised to a negated power, in a condition. -/
def powerOfElement : Expr :=
  .ternary
    (.binary .pow (.read (.element "m" (.read (.variable "i")) "i"))
      (.unary .neg (.read (.variable "x"))))
    (.parameter "$y") (.postStep .increment (.variable "z"))

theorem parse_spelt_powerOfElement :
    parse "m[i]**-x ? $y : z++" = .ok powerOfElement ∧
      ∃ tokens, tokenize "m[i]**-x ? $y : z++" = .ok tokens ∧ powerOfElement.Layered ∧
        (tokens ≠ [] → Spells "m[i]**-x ? $y : z++" tokens powerOfElement) := by
  have hparse : parse "m[i]**-x ? $y : z++" = .ok powerOfElement := by decide +kernel
  exact ⟨hparse, parse_spelt hparse⟩

end ShellExpansion.Arith
