import LiveQuery.Text.Unprintable

/-!
# Quoted text

A text between double quotes, written so that the result is visible: the quote, the backslash
and the common controls have short escapes, and every other unprintable character is written by
its code point in lower-case hexadecimal digits.
-/

namespace LiveQuery.Text

/-- The written form of one character inside quotes. -/
def escape (char : Char) : List Char :=
  match char with
  | '"' => ['\\', '"']
  | '\\' => ['\\', '\\']
  | '\n' => ['\\', 'n']
  | '\r' => ['\\', 'r']
  | '\t' => ['\\', 't']
  | '\x00' => ['\\', '0']
  | _ =>
    if isUnprintable char then
      '\\' :: 'u' :: '\x7b' :: Nat.toDigits 16 char.toNat ++ ['\x7d']
    else [char]

/-- The text between double quotes, each character in its escaped form. -/
def quoted (text : String) : String :=
  String.ofList ('"' :: text.toList.flatMap escape ++ ['"'])

end LiveQuery.Text
