import ShellExpansion.Proofs.Arith.Covering
import ShellExpansion.Proofs.Arith.Reading

/-! # How deep subscripts are nested

A subscript is shorter than the text that it stands in, so that the allowance for subscripts within
subscripts is never used up: any allowance above the length of a text gives the same
(`parseNested_eq_parse`).  A text that is no expression is refused with an error that shows it, but
for a digit that has no value (`refuses_of_parse`).  Both hold of every parser of the grammar that
is given two ways to read subscripts which agree on short ones (`Alike`). -/

namespace ShellExpansion.Arith

open ShellExpansion.Lexical

/-- The fault is an error of the expression, or a digit has no value. -/
def Refuses (text : String) (fault : Fault) : Prop :=
  (∃ problem, fault = .error (.arithmetic text problem)) ∨ fault = .notANumber

theorem refuses_arithmetic (text : String) (problem : ArithProblem) :
    Refuses text (.error (.arithmetic text problem)) := .inl ⟨problem, rfl⟩

/-! ### Constants -/

theorem refuses_of_baseDigits {text : String} {refuse fault : Fault} (hrefuse : Refuses text refuse)
    {base : Nat} : ∀ {cs : List Char} {value : Nat},
      baseDigits refuse base value cs = .error fault → Refuses text fault
  | [], _, h => by cases h
  | c :: cs, value, h => by
      unfold baseDigits at h
      split at h
      · split_ifs at h
        · exact refuses_of_baseDigits hrefuse h
        · cases h
          exact hrefuse
      · next hdigit =>
          cases h
          unfold baseDigit at hdigit
          split_ifs at hdigit
          split at hdigit
          · cases hdigit
          · cases hdigit
            exact .inr rfl

theorem refuses_of_constant {text number : String} {fault : Fault}
    (h : constant text number = .error fault) : Refuses text fault := by
  unfold constant at h
  split at h
  · split at h
    · cases h
      exact refuses_arithmetic text _
    · split_ifs at h
      · cases h
        exact refuses_arithmetic text _
      · cases h
        exact refuses_arithmetic text _
      · exact refuses_of_baseDigits (refuses_arithmetic text _) (eq_error_of_map h)
  · dsimp only at h
    split at h
    · cases h
    · cases h
      exact refuses_arithmetic text _

/-! ### Short subscripts -/

/-- Every subscript among the tokens is shorter than the bound. -/
def Short (bound : Nat) (tokens : List Token) : Prop :=
  ∀ token ∈ tokens, ∀ name subscript,
    token.lexeme = .name name (some subscript) → subscript.length < bound

theorem Short.tail {bound : Nat} {token : Token} {tokens : List Token}
    (h : Short bound (token :: tokens)) : Short bound tokens :=
  fun other hother => h other (List.mem_cons_of_mem token hother)

/-- A subscript is shorter than the text that it stands in. -/
theorem short_of_tokenize {text : String} {tokens : List Token} (h : tokenize text = .ok tokens) :
    Short text.length tokens := by
  intro token htoken name subscript hname
  obtain ⟨front, back, htext, -⟩ :=
    (laidOut_of_tokensFrom (eq_ok_of_mapError h)).exists_append token htoken
  have hlength := congrArg List.length htext
  simp only [hname, Lexeme.text, String.toList_append, List.length_append, String.length_toList,
    show "[".length = 1 from rfl] at hlength
  omega

/-! ### Parsers that do the same -/

section alike
variable {α β : Type} (text : String) (bound : Nat)

/-- Two results are the same: an error that refuses the text, or a value with short subscripts in
the tokens behind it. -/
inductive SameResult : Except Fault (α × List Token) → Except Fault (α × List Token) → Prop
  | ok (a : α) {rest : List Token} (h : Short bound rest) :
    SameResult (.ok (a, rest)) (.ok (a, rest))
  | error {fault : Fault} (h : Refuses text fault) : SameResult (.error fault) (.error fault)

/-- On tokens with short subscripts the two parsers do the same. -/
def Alike (p q : Parser α) : Prop :=
  ∀ ⦃tokens : List Token⦄, Short bound tokens → SameResult text bound (p tokens) (q tokens)

variable {text bound} {p q : Parser Expr} {index index' : String → Except Fault Expr}

theorem Alike.pure (a : α) : Alike text bound (pure a) (pure a) := fun _ h => .ok a h

theorem Alike.bind {x y : Parser α} {f g : α → Parser β} (h : Alike text bound x y)
    (hf : ∀ a, Alike text bound (f a) (g a)) : Alike text bound (x >>= f) (y >>= g) := by
  intro tokens hshort
  have hsame := h hshort
  show SameResult text bound (x tokens >>= fun r => f r.1 r.2) (y tokens >>= fun r => g r.1 r.2)
  generalize x tokens = result, y tokens = result' at hsame
  cases hsame with
  | ok a hrest => exact hf a hrest
  | error hfault => exact .error hfault

theorem alike_get : Alike text bound get get := fun tokens h => .ok tokens h

theorem alike_fail (problem : SyntaxProblem) :
    Alike text bound (fail text problem : Parser α) (fail text problem) :=
  fun _ _ => .error (refuses_arithmetic text _)

theorem alike_nextSymbol? : Alike text bound nextSymbol? nextSymbol? := by
  intro tokens h
  rw [nextSymbol?_eq]
  exact .ok _ h

theorem alike_takeSymbol? (f : String → Option α) :
    Alike text bound (takeSymbol? f) (takeSymbol? f) := by
  intro tokens h
  unfold takeSymbol?
  split
  · split
    · exact .ok _ h.tail
    · exact .ok _ h
  · exact .ok _ h

theorem alike_takeIf (symbol : String) : Alike text bound (takeIf symbol) (takeIf symbol) :=
  .bind (alike_takeSymbol? _) fun _ => .pure _

theorem alike_expect (symbol : String) :
    Alike text bound (expect text symbol) (expect text symbol) := by
  refine .bind (alike_takeIf symbol) fun found => ?_
  cases found with
  | false => exact alike_fail _
  | true => exact .pure _

/-! ### The parsers of the grammar -/

theorem moreOperands_alike (ops : List BinaryOp) (h : Alike text bound p q) :
    ∀ count left, Alike text bound (moreOperands ops p count left) (moreOperands ops q count left)
  | 0, left => .pure left
  | count + 1, left => by
      refine .bind (alike_takeSymbol? _) fun found => ?_
      cases found with
      | none => exact .pure left
      | some op => exact .bind h fun right => moreOperands_alike ops h count _

theorem level_alike (ops : List BinaryOp) (h : Alike text bound p q) :
    Alike text bound (level ops p) (level ops q) :=
  .bind h fun first => .bind alike_get fun tokens => moreOperands_alike ops h tokens.length first

theorem powers_alike (h : Alike text bound p q) :
    ∀ count, Alike text bound (powers p count) (powers q count)
  | 0 => h
  | count + 1 => by
      refine .bind h fun base => .bind (alike_takeIf _) fun found => ?_
      cases found with
      | false => exact .pure base
      | true => exact .bind (powers_alike h count) fun _ => .pure _

theorem binary_alike (h : Alike text bound p q) : Alike text bound (binary p) (binary q) := by
  have hlevels : ∀ levels : List (List BinaryOp), ∀ {p q : Parser Expr}, Alike text bound p q →
      Alike text bound (levels.foldr level p) (levels.foldr level q) := by
    intro levels p q h
    induction levels with
    | nil => exact h
    | cons ops levels ih => exact level_alike ops ih
  exact .bind alike_get fun tokens => hlevels binaryLevels (powers_alike h tokens.length)

theorem assignments_alike (h : Alike text bound p q) :
    ∀ count, Alike text bound (assignments text p count) (assignments text q count)
  | 0 => h
  | count + 1 => by
      refine .bind h fun node => ?_
      cases node with
      | read target =>
          refine .bind (alike_takeSymbol? _) fun found => ?_
          cases found with
          | none => exact .pure _
          | some op => exact .bind (assignments_alike h count) fun _ => .pure _
      | _ =>
          refine .bind alike_nextSymbol? fun symbol => ?_
          split_ifs
          · exact alike_fail _
          · exact .pure _

theorem assignment_alike (h : Alike text bound p q) :
    Alike text bound (assignment text p) (assignment text q) :=
  .bind alike_get fun tokens => assignments_alike h tokens.length

theorem commas_alike (h : Alike text bound p q) :
    Alike text bound (commas text p) (commas text q) :=
  level_alike _ (assignment_alike h)

variable (text bound index index') in
/-- Short subscripts are read in the same way, and refused as texts of their own. -/
def AlikeIndices : Prop :=
  ∀ subscript : String, subscript.length < bound → index subscript = index' subscript ∧
    ∀ fault, index subscript = .error fault → Refuses subscript fault

theorem primary_alike (hindex : AlikeIndices bound index index') (h : Alike text bound p q) :
    Alike text bound (primary text index p) (primary text index' q) := by
  intro tokens hshort
  unfold primary
  rw [bind_eq_of_ok (get_eq tokens), bind_eq_of_ok (get_eq tokens)]
  split
  · next number position rest =>
      cases hconstant : constant text number with
      | ok value => exact .ok _ hshort.tail
      | error fault => exact .error (refuses_of_constant hconstant)
  · exact .ok _ hshort.tail
  · next name subscript position rest =>
      obtain ⟨heq, hrefuses⟩ := hindex subscript (hshort _ List.mem_cons_self name subscript rfl)
      rw [← heq]
      cases hresult : index subscript with
      | ok inner => exact .ok _ hshort.tail
      | error fault =>
          obtain ⟨problem, rfl⟩ | rfl := hrefuses fault hresult
          · exact .ok _ hshort.tail
          · exact .error (.inr rfl)
  · exact .ok _ hshort.tail
  · refine Alike.bind (alike_takeIf _) (fun found => ?_) hshort
    cases found with
    | false => exact alike_fail _
    | true => exact .bind (commas_alike h) fun inner => .bind (alike_expect _) fun _ => .pure _

theorem postfixed_alike (h : Alike text bound p q) :
    Alike text bound (postfixed p) (postfixed q) := by
  refine .bind h fun node => ?_
  cases node with
  | read target =>
      refine .bind (alike_takeSymbol? _) fun found => ?_
      cases found <;> exact .pure _
  | _ => exact .pure _

/-- Conditionals and signed operands are read alike at every nesting, since each is read with those
of the next smaller one. -/
theorem conditional_signed_alike (hindex : AlikeIndices bound index index') : ∀ nesting,
    Alike text bound (conditional text index nesting) (conditional text index' nesting) ∧
      Alike text bound (signed text index nesting) (signed text index' nesting)
  | 0 => ⟨alike_fail _, alike_fail _⟩
  | nesting + 1 => by
      obtain ⟨hconditional, hsigned⟩ := conditional_signed_alike hindex nesting
      constructor
      · refine .bind (binary_alike hsigned) fun condition => .bind (alike_takeIf _) fun found => ?_
        cases found with
        | false => exact .pure condition
        | true =>
            exact .bind (assignment_alike hconditional) fun _ =>
              .bind (alike_expect _) fun _ => .bind hconditional fun _ => .pure _
      · refine .bind (alike_takeSymbol? _) fun step => ?_
        cases step with
        | some op =>
            refine .bind hsigned fun node => ?_
            cases node with
            | read target => exact .pure _
            | _ => exact alike_fail _
        | none =>
            refine .bind (alike_takeSymbol? _) fun sign => ?_
            cases sign with
            | some op => exact .bind hsigned fun _ => .pure _
            | none => exact postfixed_alike (primary_alike hindex hconditional)

theorem whole_alike (hindex : AlikeIndices bound index index') :
    Alike text bound (whole text index) (whole text index') := by
  have hconditional : Alike text bound (conditional text index maxNesting)
      (conditional text index' maxNesting) := (conditional_signed_alike hindex maxNesting).1
  refine .bind alike_get fun tokens => ?_
  split_ifs
  · exact .pure _
  · refine .bind (commas_alike hconditional) fun node => .bind alike_get fun rest => ?_
    split_ifs
    · exact .pure node
    · exact alike_fail _

end alike

/-! ### Texts -/

theorem parseNested_alike : ∀ {n m : Nat} {text : String}, text.length < n → text.length < m →
    parseNested n text = parseNested m text ∧
      ∀ fault, parseNested n text = .error fault → Refuses text fault
  | n + 1, m + 1, text, hn, hm => by
      have hindex : AlikeIndices text.length (parseNested n) (parseNested m) :=
        fun subscript hsubscript => parseNested_alike (by omega) (by omega)
      cases htokens : tokenize text with
      | error e =>
          obtain ⟨problem, rfl⟩ := exists_of_mapError htokens
          have hrefuse : ∀ nesting, parseNested (nesting + 1) text =
              .error (.error (.arithmetic text problem)) := by
            intro nesting
            rw [parseNested, htokens]
            rfl
          rw [hrefuse, hrefuse]
          refine ⟨rfl, fun fault h => ?_⟩
          cases h
          exact refuses_arithmetic text problem
      | ok tokens =>
          have hwhole : Alike text text.length (whole text (parseNested n))
              (whole text (parseNested m)) := whole_alike hindex
          have hsame := hwhole (short_of_tokenize htokens)
          rw [parseNested_of_tokenize htokens, parseNested_of_tokenize htokens]
          generalize whole text (parseNested n) tokens = result,
            whole text (parseNested m) tokens = result' at hsame
          cases hsame with
          | ok e hrest => exact ⟨rfl, fun fault h => by cases h⟩
          | error hfault =>
              refine ⟨rfl, fun fault h => ?_⟩
              cases h
              exact hfault

/-- **The allowance for nested subscripts is never used up.** -/
theorem parseNested_eq_parse {n : Nat} {text : String} (h : text.length < n) :
    parseNested n text = parse text :=
  (parseNested_alike h (Nat.lt_succ_self _)).1

/-- **A text that is no expression is refused as such**, unless one of its digits has no value. -/
theorem refuses_of_parse {text : String} {fault : Fault} (h : parse text = .error fault) :
    Refuses text fault :=
  (parseNested_alike (Nat.lt_succ_self _) (Nat.lt_succ_self _)).2 fault h

end ShellExpansion.Arith
