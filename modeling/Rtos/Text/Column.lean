/-!
# Columns of text

Listings are tables of padded columns. A width counts the characters of the text, and a text that
is too long for its column is kept whole.
-/

namespace Rtos.Text

def filling (c : Char) (width length : Nat) : String :=
  String.ofList (List.replicate (width - length) c)

def left (width : Nat) (s : String) : String :=
  s ++ filling ' ' width s.length

def right (width : Nat) (s : String) : String :=
  filling ' ' width s.length ++ s

def number (width n : Nat) : String :=
  right width (toString n)

def zeroFilled (width n : Nat) : String :=
  let digits := toString n
  filling '0' width digits.length ++ digits

/-- Lower-case hexadecimal digits behind the base mark, filled with zeros up to `width`. -/
def hexadecimal (width n : Nat) : String :=
  let digits := String.ofList (Nat.toDigits 16 n)
  "0x" ++ filling '0' (width - 2) digits.length ++ digits

theorem length_filling (c : Char) (width length : Nat) :
    (filling c width length).length = width - length := by
  simp [filling]

theorem length_left (width : Nat) (s : String) : (left width s).length = max width s.length := by
  simp only [left, String.length_append, length_filling]
  omega

theorem length_right (width : Nat) (s : String) : (right width s).length = max width s.length := by
  simp only [right, String.length_append, length_filling]
  omega

end Rtos.Text
