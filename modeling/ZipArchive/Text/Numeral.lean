/-!
# Numerals

Fixed-width numerals: signatures are shown in hexadecimal with eight digits, columns of a listing
are padded with blanks, dates with zeros.
-/
namespace ZipArchive.Text

def hexDigit (n : Nat) : Char := "0123456789abcdef".toList.getD n '0'

/-- The lowest `width` hexadecimal digits of `n`, most significant first. -/
def hexDigits : (width : Nat) → Nat → List Char
  | 0, _ => []
  | width + 1, n => hexDigits width (n / 16) ++ [hexDigit (n % 16)]

/-- A signature, such as `0x02014b50`. -/
def signature (n : UInt32) : String := "0x" ++ String.ofList (hexDigits 8 n.toNat)

/-- The text, with `fill` before it up to `width` characters. -/
def padLeft (fill : Char) (width : Nat) (text : String) : String :=
  String.ofList (List.replicate (width - text.length) fill) ++ text

/-- The text, with blanks behind it up to `width` characters. -/
def padRight (width : Nat) (text : String) : String :=
  text ++ String.ofList (List.replicate (width - text.length) ' ')

/-- The decimal numeral of `n`, with zeros before it up to `width` digits. -/
def zeroPadded (width n : Nat) : String := padLeft '0' width (toString n)

end ZipArchive.Text
