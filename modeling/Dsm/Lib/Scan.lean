import Mathlib.Data.List.TakeWhile

/-!
# Numbers at the head of a text

What the number conversions of the C library (`strtol`, `%u` of `scanf`) have in common: they skip
white space, take an optional sign, and then the longest run of decimal digits, of which there must be
one. `scanNumber` computes this; `NumberText` describes the texts it finds.
-/

namespace Dsm.Lib

/-- `isspace` of the C locale. -/
def isSpace (c : Char) : Bool := c = ' ' || (9 ≤ c.toNat && c.toNat ≤ 13)

/-- A number read off a text: its sign, its digits, and what follows. -/
structure Scanned where
  negative : Bool
  digits : List Char
  rest : List Char
  deriving DecidableEq

def splitSign : List Char → Bool × List Char
  | '-' :: cs => (true, cs)
  | '+' :: cs => (false, cs)
  | cs => (false, cs)

def scanNumber (cs : List Char) : Option Scanned :=
  let (negative, cs) := splitSign (cs.dropWhile isSpace)
  if cs.takeWhile Char.isDigit = [] then none
  else some ⟨negative, cs.takeWhile Char.isDigit, cs.dropWhile Char.isDigit⟩

/-- The digits' value. -/
def Scanned.value (n : Scanned) : Nat := Nat.ofDigitChars 10 n.digits 0

/-! ## Texts of numbers -/

inductive SignText : Bool → List Char → Prop
  | absent : SignText false []
  | plus : SignText false ['+']
  | minus : SignText true ['-']

/-- White space, a sign and at least one digit. -/
structure NumberText (negative : Bool) (space sign digits : List Char) : Prop where
  space : ∀ c ∈ space, isSpace c = true
  sign : SignText negative sign
  digits_ne : digits ≠ []
  digits : ∀ c ∈ digits, c.isDigit = true

theorem not_isSpace_of_isDigit {c : Char} (h : c.isDigit = true) : isSpace c = false := by
  simp only [Char.isDigit, Bool.and_eq_true, decide_eq_true_eq, ge_iff_le,
    UInt32.le_iff_toNat_le] at h
  have hlow : 48 ≤ c.toNat := h.1
  have hne : c ≠ ' ' := by
    rintro rfl
    revert hlow
    decide
  simp only [isSpace, hne, decide_false, Bool.false_or, Bool.and_eq_false_iff,
    decide_eq_false_iff_not]
  omega

theorem splitSign_text {negative : Bool} {sign : List Char} (hsign : SignText negative sign)
    {d : Char} (hd : d.isDigit = true) (cs : List Char) :
    splitSign (sign ++ d :: cs) = (negative, d :: cs) := by
  cases hsign with
  | plus => rfl
  | minus => rfl
  | absent =>
      show splitSign (d :: cs) = (false, d :: cs)
      unfold splitSign
      split
      · next heq =>
          obtain ⟨rfl, -⟩ := List.cons.inj heq
          cases hd
      · next heq =>
          obtain ⟨rfl, -⟩ := List.cons.inj heq
          cases hd
      · rfl

/-- A number at the head of a text is found, with all the digits that follow it. -/
theorem scanNumber_text {negative : Bool} {space sign digits : List Char}
    (h : NumberText negative space sign digits) (rest : List Char) :
    scanNumber (space ++ (sign ++ (digits ++ rest))) =
      some ⟨negative, digits ++ rest.takeWhile Char.isDigit, rest.dropWhile Char.isDigit⟩ := by
  obtain ⟨hspace, hsign, hne, hdigits⟩ := h
  obtain ⟨d, ds, rfl⟩ := List.exists_cons_of_ne_nil hne
  have hd : d.isDigit = true := hdigits d List.mem_cons_self
  have hskip : (space ++ (sign ++ (d :: ds ++ rest))).dropWhile isSpace =
      sign ++ (d :: ds ++ rest) := by
    rw [List.dropWhile_append_of_pos hspace]
    cases hsign with
    | absent => exact List.dropWhile_cons_of_neg (by simp [not_isSpace_of_isDigit hd])
    | plus => exact List.dropWhile_cons_of_neg (by decide)
    | minus => exact List.dropWhile_cons_of_neg (by decide)
  have htake : (d :: (ds ++ rest)).takeWhile Char.isDigit =
      d :: ds ++ rest.takeWhile Char.isDigit := List.takeWhile_append_of_pos hdigits
  have hdrop : (d :: (ds ++ rest)).dropWhile Char.isDigit = rest.dropWhile Char.isDigit :=
    List.dropWhile_append_of_pos hdigits
  rw [scanNumber, hskip, List.cons_append, splitSign_text hsign hd]
  simp only [htake, hdrop, List.cons_append, reduceCtorEq, if_false]

theorem splitSign_sign (cs : List Char) :
    ∃ sign, SignText (splitSign cs).1 sign ∧ cs = sign ++ (splitSign cs).2 := by
  unfold splitSign
  split
  · exact ⟨['-'], .minus, rfl⟩
  · exact ⟨['+'], .plus, rfl⟩
  · exact ⟨[], .absent, rfl⟩

/-- What is found was there. -/
theorem scanNumber_some {cs : List Char} {n : Scanned} (h : scanNumber cs = some n) :
    ∃ space sign, NumberText n.negative space sign n.digits ∧
      cs = space ++ (sign ++ (n.digits ++ n.rest)) := by
  obtain ⟨sign, hsign, htext⟩ := splitSign_sign (cs.dropWhile isSpace)
  simp only [scanNumber] at h
  split_ifs at h with hne
  obtain rfl := Option.some.inj h
  refine ⟨cs.takeWhile isSpace, sign, ⟨fun c hc => List.mem_takeWhile_imp hc, hsign, hne,
    fun c hc => List.mem_takeWhile_imp hc⟩, ?_⟩
  rw [List.takeWhile_append_dropWhile, ← htext, List.takeWhile_append_dropWhile]

/-- The decimal form of a number, as digits. -/
theorem numberText_toDigits (n : Nat) : NumberText false [] [] (Nat.toDigits 10 n) where
  space := fun _ h => absurd h List.not_mem_nil
  sign := .absent
  digits_ne := Nat.toDigits_ne_nil
  digits := fun _ hc => Nat.isDigit_of_mem_toDigits (by decide) (by decide) hc

end Dsm.Lib
