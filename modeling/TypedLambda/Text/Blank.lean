namespace TypedLambda.Text

/-!
# Blanks

`isBlank` is the Unicode property White_Space, 25 code points. Types and
typing conventions may hold any of them between their parts.
-/

/-- Whether a character is white space. -/
def isBlank (character : Char) : Bool :=
  let code := character.toNat
  (9 ≤ code && code ≤ 13) || code == 0x20 || code == 0x85 || code == 0xa0 ||
    code == 0x1680 || (0x2000 ≤ code && code ≤ 0x200a) || code == 0x2028 ||
    code == 0x2029 || code == 0x202f || code == 0x205f || code == 0x3000

/-- What is left of a text once its leading blanks are gone. -/
def trimStart (text : List Char) : List Char :=
  text.dropWhile isBlank

/-- What is left of a text once its trailing blanks are gone. -/
def trimEnd (text : List Char) : List Char :=
  (text.reverse.dropWhile isBlank).reverse

/-- A text without the blanks at either end. -/
def trim (text : List Char) : List Char :=
  trimEnd (trimStart text)

/-- The white space that core recognises is white space here. -/
theorem isBlank_of_isWhitespace
    {character : Char}
    (blank : character.isWhitespace = true) :
    isBlank character = true := by
  simp only [Char.isWhitespace, Bool.or_eq_true, decide_eq_true_eq] at blank
  rcases blank with ((rfl | rfl) | rfl) | rfl <;> rfl

end TypedLambda.Text
