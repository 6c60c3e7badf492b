import ShellExpansion.Proofs.Glob.Matching

/-! # Patterns that stand for a text

A part of a pattern spells a text when the characters of the text are its elements, whatever follows
it in the pattern (`Spells`).  An escaped text spells itself (`spells_escape`): no character of it
opens or closes a bracket, or takes part in one.  What a pattern matches that begins with such a
part is the text and behind it what the rest of the pattern matches (`isMatch_append_of_spells`). -/

namespace ShellExpansion.Glob

/-- Whatever follows the first text in a pattern, it stands there for the characters of the
second. -/
def Spells (front text : List Char) : Prop :=
  ∀ rest, elements (front ++ rest) = text.map .literal ++ elements rest

theorem Spells.nil : Spells [] [] := fun _ => rfl

theorem Spells.append {front text front' text' : List Char} (h : Spells front text)
    (h' : Spells front' text') : Spells (front ++ front') (text ++ text') := by
  intro rest
  rw [List.append_assoc, h, h', List.map_append, List.append_assoc]

theorem spells_pair (c : Char) : Spells ['\\', c] [c] := by
  intro rest
  show elements ('\\' :: c :: rest) = _
  rw [elements]
  rfl

/-- A character without a meaning of its own stands for itself. -/
theorem spells_singleton {c : Char} (hc : isSpecial c = false) : Spells [c] [c] := by
  intro rest
  simp only [isSpecial, Bool.or_eq_false_iff, beq_eq_false_iff_ne] at hc
  obtain ⟨⟨⟨⟨hstar, hany⟩, hbracket⟩, -⟩, hslash⟩ := hc
  show elements (c :: rest) = _
  rw [elements_literal hstar hany hslash hbracket]
  rfl

/-- **An escaped text spells itself.** -/
theorem spells_escape (text : String) : Spells (escape text).toList text.toList := by
  rw [escape, String.toList_ofList]
  induction text.toList with
  | nil => exact .nil
  | cons c cs ih =>
      have hchar : Spells (if isSpecial c then ['\\', c] else [c]) [c] := by
        cases hc : isSpecial c with
        | true => exact spells_pair c
        | false => exact spells_singleton hc
      rw [List.flatMap_cons]
      exact hchar.append ih

theorem takes_literals_iff {elements : List Element} : ∀ {text subject : List Char},
    Takes (text.map .literal ++ elements) subject ↔
      ∃ rest, subject = text ++ rest ∧ Takes elements rest
  | [], subject => by simp
  | c :: text, subject => by
      rw [List.map_cons, List.cons_append, takes_cons_iff (by simp)]
      constructor
      · rintro ⟨d, behind, rfl, hd, h⟩
        obtain ⟨rest, rfl, hrest⟩ := takes_literals_iff.mp h
        obtain rfl : c = d := eq_of_beq hd
        exact ⟨rest, rfl, hrest⟩
      · rintro ⟨rest, rfl, hrest⟩
        exact ⟨c, text ++ rest, rfl, beq_self_eq_true c, takes_literals_iff.mpr ⟨rest, rfl, hrest⟩⟩

section Spells
variable {front text : String} (h : Spells front.toList text.toList)

include h

/-- **What is spelt matches only itself**, whatever pattern stands behind it. -/
theorem isMatch_append_of_spells (pattern subject : String) :
    isMatch (front ++ pattern) subject = true ↔
      ∃ rest, subject = text ++ rest ∧ isMatch pattern rest = true := by
  simp only [isMatch, matchesList_iff]
  rw [String.toList_append, h, takes_literals_iff]
  constructor
  · rintro ⟨rest, hsubject, hrest⟩
    refine ⟨String.ofList rest, ?_, ?_⟩
    · rw [← String.toList_inj, String.toList_append, String.toList_ofList, hsubject]
    · rwa [String.toList_ofList]
  · rintro ⟨rest, rfl, hrest⟩
    exact ⟨rest.toList, String.toList_append, hrest⟩

/-- A pattern that spells a text matches this text alone. -/
theorem isMatch_of_spells (subject : String) : isMatch front subject = decide (subject = text) := by
  have hempty (rest : String) : isMatch "" rest = true ↔ rest = "" := by
    rw [isMatch, matchesList_iff, String.toList_empty, elements_nil, ← leaves_nil_right, leaves_nil,
      eq_comm, String.toList_eq_nil_iff]
  have hmatch := isMatch_append_of_spells h "" subject
  simp only [String.append_empty, hempty, exists_eq_right] at hmatch
  rw [Bool.eq_iff_iff, hmatch, decide_eq_true_eq]

end Spells

end ShellExpansion.Glob
