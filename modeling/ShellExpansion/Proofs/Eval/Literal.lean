import ShellExpansion.Eval.Word
import ShellExpansion.Proofs.Lexical.Quote

/-! # Words in which nothing is expanded

A word is literal when every dollar sign in it that could begin an expansion stands for itself
(`Word.IsLiteral`).  Such a word expands to its text without quotes and backslashes, which is what
those read who do not expand words at all (`expandWord_of_isLiteral`). -/

namespace ShellExpansion

open Lexical

namespace Word

/-- The dollar sign begins nothing. -/
def Dollar.isAlone : Dollar → Bool
  | .alone => true
  | _ => false

/-- Nothing in the part of a section in double quotes is expanded. -/
def Atom.isLiteral : Atom → Bool
  | .char _ => true
  | .dollar form => form.isAlone

/-- Nothing in the part of a word is expanded. -/
def Piece.isLiteral : Piece → Bool
  | .double atoms => atoms.all Atom.isLiteral
  | .dollar form => form.isAlone
  | _ => true

/-- Nothing in the word is expanded. -/
def IsLiteral (text : String) : Prop := (pieces text).all Piece.isLiteral = true

instance (text : String) : Decidable (IsLiteral text) :=
  inferInstanceAs (Decidable (_ = true))

/-- What a literal part of a section in double quotes stands for. -/
def Atom.shown : Atom → Char
  | .char c => c
  | .dollar _ => '$'

/-- What a literal part of a word stands for. -/
def Piece.shown : Piece → List Char
  | .char c => [c]
  | .escaped c => [c]
  | .single text => text.toList
  | .double atoms => atoms.map Atom.shown
  | .dollar _ => ['$']

/-! ### Removing quotes -/

theorem named_of_isAlone (cs : List Char) : (named cs).1.isAlone = true → (named cs).2 = cs := by
  unfold named
  split
  · exact fun _ => rfl
  · split_ifs
    · intro h
      cases h
    · intro h
      cases h
    · exact fun _ => rfl

/-- A dollar sign that begins nothing takes nothing. -/
theorem dollar_of_isAlone (cs : List Char) :
    (dollar cs).1.isAlone = true → (dollar cs).2 = cs := by
  unfold dollar
  split
  · split
    · intro h
      cases h
    · exact fun _ => rfl
  · split <;> intro h <;> cases h
  · exact named_of_isAlone cs

theorem atoms_cons {c : Char} (hslash : c ≠ '\\') (hdollar : c ≠ '$') (cs : List Char) :
    atoms (c :: cs) = .char c :: atoms cs := by
  rw [atoms]
  · exact fun _ _ h => absurd h hslash
  · exact hdollar

theorem splitSingle_shown (cs : List Char) :
    (splitSingle cs).1 ++ unquoteBare (splitSingle cs).2 = unquoteSingle cs := by
  fun_induction splitSingle cs with
  | case1 => rfl
  | case2 rest => rw [unquoteSingle, if_pos rfl, List.nil_append]
  | case3 c rest hc ih =>
      rw [unquoteSingle, if_neg hc, ← ih]
      rfl

theorem splitDouble_shown (cs : List Char) :
    (atoms (splitDouble cs).1).all Atom.isLiteral = true →
      (atoms (splitDouble cs).1).map Atom.shown ++ unquoteBare (splitDouble cs).2 =
        unquoteDouble cs := by
  fun_induction splitDouble cs with
  | case1 =>
      intro _
      rw [atoms]
      rfl
  | case2 c rest ih =>
      intro h
      simp only [consFirst] at h ⊢
      rw [unquoteDouble]
      cases hc : isDoubleEscapable c with
      | true =>
          rw [atoms, if_pos hc] at h ⊢
          rw [List.map_cons, List.cons_append, ih h]
          rfl
      | false =>
          obtain ⟨hquote, hslash, hdollar⟩ := ne_of_not_isDoubleEscapable hc
          rw [atoms, if_neg (by simp [hc]), atoms_cons hslash hdollar] at h ⊢
          rw [unquoteDouble_cons hslash, if_neg hquote, List.map_cons, List.map_cons,
            List.cons_append, List.cons_append, ih h]
          rfl
  | case3 rest =>
      intro _
      rw [unquoteDouble_cons (by decide), if_pos rfl, atoms]
      rfl
  | case4 c rest hescape hquote ih =>
      intro h
      simp only [consFirst] at h ⊢
      by_cases hslash : c = '\\'
      · subst hslash
        cases rest with
        | nil =>
            have hend : atoms ['\\'] = [.char '\\'] := by simp [atoms]
            show (atoms ['\\']).map Atom.shown ++ unquoteBare [] = unquoteDouble ['\\']
            rw [hend]
            simp [unquoteBare, unquoteDouble, Atom.shown]
        | cons d rest => exact absurd rfl (hescape d rest rfl)
      · rw [unquoteDouble_cons hslash, if_neg hquote]
        by_cases hdollar : c = '$'
        · subst hdollar
          rw [atoms] at h ⊢
          obtain ⟨halone, hrest⟩ := Bool.and_eq_true_iff.mp h
          rw [dollar_of_isAlone _ halone] at hrest ⊢
          rw [List.map_cons, List.cons_append, ih hrest]
          rfl
        · rw [atoms_cons hslash hdollar] at h ⊢
          rw [List.map_cons, List.cons_append, ih h]
          rfl

/-- The pieces of a literal word stand for its text without quotes. -/
theorem piecesList_shown (cs : List Char) : (piecesList cs).all Piece.isLiteral = true →
    (piecesList cs).flatMap Piece.shown = unquoteBare cs := by
  fun_induction piecesList cs with
  | case1 => exact fun _ => rfl
  | case2 rest ih =>
      intro h
      rw [List.flatMap_cons, ih h, unquoteBare_cons (by decide), if_pos rfl, ← splitSingle_shown,
        Piece.shown, String.toList_ofList]
  | case3 rest ih =>
      intro h
      obtain ⟨hatoms, hrest⟩ := Bool.and_eq_true_iff.mp h
      rw [List.flatMap_cons, ih hrest, unquoteBare_cons (by decide), if_neg (by decide), if_pos rfl,
        ← splitDouble_shown _ hatoms]
      rfl
  | case4 c rest ih =>
      intro h
      rw [List.flatMap_cons, ih h, unquoteBare]
      rfl
  | case5 rest ih =>
      intro h
      obtain ⟨halone, hrest⟩ := Bool.and_eq_true_iff.mp h
      rw [dollar_of_isAlone _ halone] at ih hrest ⊢
      rw [List.flatMap_cons, ih hrest, unquoteBare_cons (by decide), if_neg (by decide),
        if_neg (by decide)]
      rfl
  | case6 c rest hsingle hdouble hescape hdollar ih =>
      intro h
      rw [List.flatMap_cons, ih h]
      by_cases hslash : c = '\\'
      · subst hslash
        cases rest with
        | nil => simp [unquoteBare, Piece.shown]
        | cons d rest => exact absurd rfl (hescape d rest rfl)
      · rw [unquoteBare_cons hslash, if_neg hsingle, if_neg hdouble]
        rfl

end Word

namespace Evaluators

open Eval Word

variable (deeper : Evaluators)

theorem expandEach_atoms : ∀ {atoms : List Atom}, atoms.all Atom.isLiteral = true →
    expandEach deeper.expandAtom atoms = pure (String.ofList (atoms.map Atom.shown))
  | [], _ => rfl
  | atom :: atoms, h => by
      obtain ⟨hatom, hatoms⟩ := Bool.and_eq_true_iff.mp h
      have hfirst : deeper.expandAtom atom = pure (String.ofList [atom.shown]) := by
        match atom with
        | .char c => rfl
        | .dollar .alone => rfl
      rw [expandEach, hfirst, expandEach_atoms hatoms, pure_bind, pure_bind, ← String.ofList_append]
      rfl

theorem expandEach_pieces : ∀ {pieces : List Piece}, pieces.all Piece.isLiteral = true →
    expandEach (deeper.expandPiece .text) pieces =
      pure (String.ofList (pieces.flatMap Piece.shown))
  | [], _ => rfl
  | piece :: pieces, h => by
      obtain ⟨hpiece, hpieces⟩ := Bool.and_eq_true_iff.mp h
      have hfirst : deeper.expandPiece .text piece = pure (String.ofList piece.shown) := by
        match piece with
        | .char c => rfl
        | .escaped c => rfl
        | .single text => exact congrArg pure String.ofList_toList.symm
        | .double atoms =>
            rw [expandPiece, deeper.expandEach_atoms hpiece, pure_bind]
            rfl
        | .dollar .alone => rfl
      rw [expandEach, hfirst, expandEach_pieces hpieces, pure_bind, pure_bind,
        ← String.ofList_append]
      rfl

/-- **A literal word expands to its text without quotes**, and nothing is done to the shell. -/
theorem expandWord_of_isLiteral {text : String} (h : IsLiteral text) :
    deeper.expandWord .text text = pure (unquote text) := by
  rw [expandWord, deeper.expandEach_pieces h, unquote, pieces, piecesList_shown _ h]

end Evaluators

end ShellExpansion
