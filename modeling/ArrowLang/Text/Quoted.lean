import ArrowLang.Text
import ArrowLang.Text.Printable

/-!
# Quoted text

A text between double quotes, in which everything that would not show is written as an escape.
-/

namespace ArrowLang.Text

/-- A character inside quotes. -/
def escape (c : Char) : Text :=
  match c with
  | '\x00' => ['\\', '0']
  | '\t' => ['\\', 't']
  | '\n' => ['\\', 'n']
  | '\r' => ['\\', 'r']
  | '"' => ['\\', '"']
  | '\\' => ['\\', '\\']
  | c =>
    if isPrintable c then [c]
    else ['\\', 'u', '\x7b'] ++ Nat.toDigits 16 c.toNat ++ ['\x7d']

def quote (t : Text) : Text := '"' :: (t.flatMap escape ++ ['"'])

end ArrowLang.Text
