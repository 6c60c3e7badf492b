import Mathlib.Data.Nat.Digits.Lemmas
import ShellExpansion.Proofs.Arith.Constant

/-! # Constants in a base of their own

Behind a base and the mark `#` the digits of a number stand, each of them one of the signs in
`digitSigns`, which has them in the order of their values; up to base 36 it makes no difference
whether a letter is small or capital (`asDigit`).  The digits are read as what they are worth
(`baseDigits_of_forall₂`), so a number is read back from its digits (`constant_inBase`).  A text of
ASCII that is empty, or in which a character is no digit of the base, is refused. -/

namespace ShellExpansion.Arith

/-- The signs of all digits, in the order of their values. -/
def digitSigns : List Char :=
  ['0', '1', '2', '3', '4', '5', '6', '7', '8', '9',
   'a', 'b', 'c', 'd', 'e', 'f', 'g', 'h', 'i', 'j', 'k', 'l', 'm',
   'n', 'o', 'p', 'q', 'r', 's', 't', 'u', 'v', 'w', 'x', 'y', 'z',
   'A', 'B', 'C', 'D', 'E', 'F', 'G', 'H', 'I', 'J', 'K', 'L', 'M',
   'N', 'O', 'P', 'Q', 'R', 'S', 'T', 'U', 'V', 'W', 'X', 'Y', 'Z',
   '@', '_']

/-- The character as a digit of the base; up to base 36 a capital letter is what the small one
is. -/
def asDigit (base : ℕ) (c : Char) : Char := if base ≤ 36 then c.toLower else c

/-- The character is written for the digit of the base. -/
def IsSignOf (base : ℕ) (c : Char) (d : ℕ) : Prop :=
  d < base ∧ digitSigns[d]? = some (asDigit base c)

/-- The character is a digit of the base. -/
def IsDigitOf (base : ℕ) (c : Char) : Prop := ∃ d < base, digitSigns[d]? = some (asDigit base c)

instance (base : ℕ) (c : Char) : Decidable (IsDigitOf base c) :=
  inferInstanceAs (Decidable (∃ d < base, _))

/-- The sign of a digit. -/
def digitSign (d : ℕ) : Char := digitSigns.getD d '0'

/-- The digits of a number in a base, from the front; zero has one digit. -/
def digitValues (base n : ℕ) : List ℕ := if n = 0 then [0] else (Nat.digits base n).reverse

/-- A number as it is written in a base. -/
def digitText (base n : ℕ) : List Char := (digitValues base n).map digitSign

/-- The base in decimal, the mark, and the digits. -/
def inBase (base : ℕ) (digits : List Char) : String :=
  toString base ++ String.ofList ('#' :: digits)

variable {base : ℕ} {c : Char} {cs : List Char}

/-! ### Single digits -/

/-- What a sign is worth. -/
def signValue? (c : Char) : Option ℕ :=
  if c.isDigit then some (c.toNat - '0'.toNat)
  else if 'a' ≤ c ∧ c ≤ 'z' then some (c.toNat - 'a'.toNat + 10)
  else if 'A' ≤ c ∧ c ≤ 'Z' then some (c.toNat - 'A'.toNat + 36)
  else if c = '@' then some 62
  else if c = '_' then some 63
  else none

theorem signValue?_digitSign : ∀ d < 64, signValue? (digitSign d) = some d := by decide +kernel

/-- On ASCII, what a character is read as is what it is worth as a sign, and the base if it is
none. -/
theorem baseDigit_of_ascii (hc : c.toNat < 128) :
    baseDigit base c = .ok ((signValue? (asDigit base c)).getD base) := by
  -- The base has a say only in what a capital letter is worth.
  have hall : ∀ folded : Bool, ∀ n < 128,
      signValue? (if folded then (Char.ofNat n).toLower else Char.ofNat n) =
        if (Char.ofNat n).isDigit then some ((Char.ofNat n).toNat - '0'.toNat)
        else if 'a' ≤ Char.ofNat n ∧ Char.ofNat n ≤ 'z' then
          some ((Char.ofNat n).toNat - 'a'.toNat + 10)
        else if 'A' ≤ Char.ofNat n ∧ Char.ofNat n ≤ 'Z' then
          some ((Char.ofNat n).toNat - 'A'.toNat + if folded then 10 else 36)
        else if Char.ofNat n = '@' then some 62
        else if Char.ofNat n = '_' then some 63
        else none := by
    decide +kernel
  have hvalue := hall (decide (base ≤ 36)) c.toNat hc
  simp only [Char.ofNat_toNat, decide_eq_true_eq] at hvalue
  rw [asDigit, hvalue, baseDigit, Text.isDigit_of_ascii hc, Text.decimalValue?_of_ascii hc]
  split_ifs <;> rfl

theorem toNat_toLower_lt_iff : c.toLower.toNat < 128 ↔ c.toNat < 128 := by
  have hsmall : ∀ n < 128, (Char.ofNat n).toLower.toNat < 128 := by decide
  refine ⟨fun h => ?_, fun h => ?_⟩
  · unfold Char.toLower at h
    split at h
    · next hcapital => exact Nat.lt_of_le_of_lt (UInt32.le_iff_toNat_le.mp hcapital.2) (by decide)
    · exact h
  · have hlower := hsmall c.toNat h
    rwa [Char.ofNat_toNat] at hlower

theorem lt_length_of_getElem? {d : ℕ} (h : digitSigns[d]? = some c) : d < 64 :=
  (List.getElem?_eq_some_iff.mp h).1

theorem digitSign_of_getElem? {d : ℕ} (h : digitSigns[d]? = some c) : digitSign d = c := by
  rw [digitSign, List.getD_eq_getElem?_getD, h, Option.getD_some]

theorem toNat_asDigit_lt_iff : (asDigit base c).toNat < 128 ↔ c.toNat < 128 := by
  unfold asDigit
  split_ifs
  · exact toNat_toLower_lt_iff
  · rfl

/-- Digits are ASCII. -/
theorem toNat_lt_of_isSignOf {d : ℕ} (h : IsSignOf base c d) : c.toNat < 128 := by
  have hsigns : digitSigns.all (fun sign => sign.toNat < 128) = true := by decide
  have hsign := List.all_eq_true.mp hsigns _ (List.mem_of_getElem? h.2)
  exact toNat_asDigit_lt_iff.mp (of_decide_eq_true hsign)

/-- What is written for a digit is read as the digit. -/
theorem IsSignOf.baseDigit_eq {d : ℕ} (h : IsSignOf base c d) : baseDigit base c = .ok d := by
  have hvalue := signValue?_digitSign d (lt_length_of_getElem? h.2)
  rw [digitSign_of_getElem? h.2] at hvalue
  rw [baseDigit_of_ascii (toNat_lt_of_isSignOf h), hvalue, Option.getD_some]

/-- What is read as a digit of the base is one. -/
theorem isDigitOf_of_baseDigit (hc : c.toNat < 128) {d : ℕ} (h : baseDigit base c = .ok d)
    (hd : d < base) : IsDigitOf base c := by
  have hsigns : ∀ n < 128, ∀ d ∈ signValue? (Char.ofNat n),
      digitSigns[d]? = some (Char.ofNat n) := by
    decide +kernel
  rw [baseDigit_of_ascii hc] at h
  cases hvalue : signValue? (asDigit base c) with
  | none =>
      rw [hvalue] at h
      exact absurd (Except.ok.inj h) (Nat.ne_of_gt hd)
  | some value =>
      rw [hvalue] at h
      obtain rfl : value = d := Except.ok.inj h
      have hsign := hsigns (asDigit base c).toNat (toNat_asDigit_lt_iff.mpr hc) value
      rw [Char.ofNat_toNat] at hsign
      exact ⟨value, hd, hsign hvalue⟩

/-- The sign of a digit is written for it, and up to base 36 its capital letter is. -/
theorem isSignOf_digitSign (hbase : base ≤ 64) {d : ℕ} (hd : d < base)
    (h : c = digitSign d ∨ base ≤ 36 ∧ c = (digitSign d).toUpper) : IsSignOf base c d := by
  have hexact : ∀ d < 64, digitSigns[d]? = some (digitSign d) := by decide +kernel
  have hfolded : ∀ d < 36, digitSigns[d]? = some (digitSign d).toLower ∧
      digitSigns[d]? = some (digitSign d).toUpper.toLower := by
    decide +kernel
  refine ⟨hd, ?_⟩
  unfold asDigit
  rcases h with rfl | ⟨hle, rfl⟩
  · split_ifs
    · exact (hfolded d (by omega)).1
    · exact hexact d (by omega)
  · rw [if_pos hle]
    exact (hfolded d (by omega)).2

/-! ### Texts of digits -/

/-- Digits are read as what they are worth, behind the digits that were read before. -/
theorem baseDigits_of_forall₂ {ds : List ℕ} (h : List.Forall₂ (IsSignOf base) cs ds)
    (refuse : Fault) (value : ℕ) :
    baseDigits refuse base value cs =
      .ok (value * base ^ ds.length + Nat.ofDigits base ds.reverse) := by
  induction h generalizing value with
  | nil => simp [baseDigits]
  | @cons c d cs ds hc _ ih =>
      rw [baseDigits, hc.baseDigit_eq]
      dsimp only
      rw [if_pos hc.1, ih, Nat.ofDigits_reverse_cons, List.length_cons]
      ring_nf

/-- A text with a character that is no digit of the base is refused. -/
theorem baseDigits_eq_error (hascii : ∀ c ∈ cs, c.toNat < 128) (h : ∃ c ∈ cs, ¬IsDigitOf base c)
    (refuse : Fault) (value : ℕ) : baseDigits refuse base value cs = .error refuse := by
  induction cs generalizing value with
  | nil =>
      obtain ⟨c, hc, -⟩ := h
      cases hc
  | cons c cs ih =>
      obtain ⟨hc, hcs⟩ := List.forall_mem_cons.mp hascii
      have hdigit : baseDigit base c = .ok ((signValue? (asDigit base c)).getD base) :=
        baseDigit_of_ascii hc
      rw [baseDigits, hdigit]
      dsimp only
      split_ifs with hd
      · -- The character is a digit, so the one that is none stands behind it.
        obtain ⟨other, hmem, hother⟩ := h
        rcases List.mem_cons.mp hmem with rfl | hmem
        · exact absurd (isDigitOf_of_baseDigit hc hdigit hd) hother
        · exact ih hcs ⟨other, hmem, hother⟩ _
      · rfl

theorem digitValues_lt (hbase : 1 < base) (n : ℕ) : ∀ d ∈ digitValues base n, d < base := by
  unfold digitValues
  split_ifs
  · exact List.forall_mem_singleton.mpr (by omega)
  · exact fun d hd => Nat.digits_lt_base hbase (List.mem_reverse.mp hd)

/-- The digits of a number are worth the number. -/
theorem ofDigits_digitValues (n : ℕ) : Nat.ofDigits base (digitValues base n).reverse = n := by
  unfold digitValues
  split_ifs with hn
  · subst hn
    exact Nat.ofDigits_singleton
  · rw [List.reverse_reverse, Nat.ofDigits_digits]

theorem digitValues_ne_nil (n : ℕ) : digitValues base n ≠ [] := by
  unfold digitValues
  split_ifs with hn
  · exact List.cons_ne_nil _ _
  · exact fun h => Nat.digits_ne_nil_iff_ne_zero.mpr hn (List.reverse_eq_nil_iff.mp h)

/-- The signs of digits are written for them, also if some are capital letters up to base 36. -/
theorem isSignOf_of_forall₂ (hbase : base ≤ 64) {ds : List ℕ} (hds : ∀ d ∈ ds, d < base)
    (h : List.Forall₂ (fun c sign => c = sign ∨ base ≤ 36 ∧ c = sign.toUpper) cs
      (ds.map digitSign)) : List.Forall₂ (IsSignOf base) cs ds := by
  rw [List.forall₂_map_right_iff] at h
  induction h with
  | nil => exact .nil
  | cons hc _ ih =>
      obtain ⟨hd, hds⟩ := List.forall_mem_cons.mp hds
      exact .cons (isSignOf_digitSign hbase hd hc) (ih hds)

/-! ### Constants -/

/-- What stands behind the mark is read as digits of the base in front of it. -/
theorem constant_inBase_eq (hlow : 2 ≤ base) (hhigh : base ≤ 64) (expression : String)
    (digits : List Char) :
    constant expression (inBase base digits) =
      if digits = [] then .error (.error (.arithmetic expression .invalidNumber))
      else (baseDigits (.error (.arithmetic expression (.digitTooGreat (String.ofList digits))))
        base 0 digits).map Int.ofNat := by
  have hlist : (inBase base digits).toList = (toString base).toList ++ '#' :: digits := by
    rw [inBase, String.toList_append, String.toList_ofList]
  have hdecimal : ∀ c ∈ (toString base).toList, (c != '#') = true :=
    Text.forall_mem_toString (by decide) base
  have hwritable : Text.isWritable base = true := by
    have hbound : 10 ^ 2 ≤ 10 ^ Text.maxDecimalDigits :=
      Nat.pow_le_pow_right (by decide) (by decide)
    exact Text.isWritable_iff.mpr (by omega)
  have hbase : Text.readNumeral 10 (toString base) = some (base : ℤ) := by
    rw [Text.readNumeral_toString, if_pos hwritable]
  unfold constant
  rw [hlist, List.dropWhile_append_of_pos hdecimal, List.takeWhile_append_of_pos hdecimal]
  simp only [List.dropWhile_cons, List.takeWhile_cons, bne_self_eq_false, Bool.false_eq_true,
    if_false, List.append_nil, String.ofList_toList, hbase, Int.toNat_natCast]
  rw [if_neg (by omega)]
  cases digits <;> rfl

/-- **Constants in a base are read back, and nothing but digits is read.**  Let the base be one from
2 to 64.  The digits of any number behind it are read as the number, also if some of the letters are
capital instead of small ones up to base 36.  A text of ASCII behind it that is empty, or in which
some character is no digit of the base, is refused with an error of its own kind. -/
theorem constant_inBase (hlow : 2 ≤ base) (hhigh : base ≤ 64) (expression : String) :
    (∀ n, constant expression (inBase base (digitText base n)) = .ok n) ∧
    (base ≤ 36 → ∀ n cs,
      List.Forall₂ (fun c sign => c = sign ∨ c = sign.toUpper) cs (digitText base n) →
      constant expression (inBase base cs) = .ok n) ∧
    ∀ cs : List Char, (∀ c ∈ cs, c.toNat < 128) → (cs = [] ∨ ∃ c ∈ cs, ¬IsDigitOf base c) →
      constant expression (inBase base cs) = .error (.error (.arithmetic expression
        (if cs = [] then .invalidNumber else .digitTooGreat (String.ofList cs)))) := by
  have hread (n : ℕ) (cs : List Char)
      (h : List.Forall₂ (fun c sign => c = sign ∨ base ≤ 36 ∧ c = sign.toUpper) cs
        (digitText base n)) : constant expression (inBase base cs) = .ok n := by
    have hne : cs ≠ [] := by
      rintro rfl
      exact digitValues_ne_nil n (List.map_eq_nil_iff.mp (List.forall₂_nil_left_iff.mp h))
    have hsigns := isSignOf_of_forall₂ hhigh (digitValues_lt hlow n) h
    rw [constant_inBase_eq hlow hhigh, if_neg hne, baseDigits_of_forall₂ hsigns,
      ofDigits_digitValues, Nat.zero_mul, Nat.zero_add]
    rfl
  refine ⟨fun n => hread n _ (List.forall₂_same.mpr fun _ _ => .inl rfl), fun hfolded n cs h => ?_,
    fun cs hascii h => ?_⟩
  · exact hread n cs (h.imp fun _ _ hc => hc.imp_right fun hupper => ⟨hfolded, hupper⟩)
  · rw [constant_inBase_eq hlow hhigh]
    split_ifs with hempty
    · rfl
    · rw [baseDigits_eq_error hascii (h.resolve_left hempty)]
      rfl

/-- A number in base 16 with letters of both cases and one in base 64, and two texts behind base 36
that are refused. -/
theorem constant_inBase_letters :
    (2 ≤ 16 ∧ 16 ≤ 64 ∧ constant "16#bEef" "16#bEef" = .ok 48879) ∧
      (2 ≤ 64 ∧ 64 ≤ 64 ∧ constant "64#bX_" "64#bX_" = .ok 48895) ∧
      2 ≤ 36 ∧ 36 ≤ 64 ∧
      constant "36#" "36#" = .error (.error (.arithmetic "36#" .invalidNumber)) ∧
      constant "36#z@" "36#z@" = .error (.error (.arithmetic "36#z@" (.digitTooGreat "z@"))) := by
  have h16 : 2 ≤ 16 ∧ 16 ≤ 64 := by decide
  have h64 : 2 ≤ 64 ∧ 64 ≤ 64 := by decide
  have h36 : 2 ≤ 36 ∧ 36 ≤ 64 := by decide
  have hcapital := (constant_inBase h16.1 h16.2 "16#bEef").2.1 (by decide) 48879 "bEef".toList
    (by decide)
  have hsigns := (constant_inBase h64.1 h64.2 "64#bX_").1 48895
  obtain ⟨-, -, hempty⟩ := constant_inBase h36.1 h36.2 "36#"
  obtain ⟨-, -, hforeign⟩ := constant_inBase h36.1 h36.2 "36#z@"
  have hascii : ∀ c ∈ "z@".toList, c.toNat < 128 :=
    List.forall_mem_cons.mpr ⟨by decide, List.forall_mem_singleton.mpr (by decide)⟩
  exact ⟨⟨h16.1, h16.2, hcapital⟩, ⟨h64.1, h64.2, hsigns⟩, h36.1, h36.2,
    hempty [] (fun _ hmem => absurd hmem List.not_mem_nil) (.inl rfl),
    hforeign "z@".toList hascii (.inr ⟨'@', by decide, by decide⟩)⟩

end ShellExpansion.Arith
