import ArrowLang.Text

/-!
# JSON text

The values that reports are made of, and their layout: every member of an array or an object on a
line of its own, two spaces deeper than what holds it.
-/

namespace ArrowLang

inductive Json where
  | bool (value : Bool)
  | nat (value : Nat)
  | str (value : String)
  | arr (items : List Json)
  | obj (fields : List (String × Json))

namespace Json

/-- A character inside quotes. Only quotes, backslashes and control characters are escaped. -/
def escape (c : Char) : Text :=
  match c with
  | '"' => ['\\', '"']
  | '\\' => ['\\', '\\']
  | '\x08' => ['\\', 'b']
  | '\x0c' => ['\\', 'f']
  | '\n' => ['\\', 'n']
  | '\r' => ['\\', 'r']
  | '\t' => ['\\', 't']
  | c =>
    if c.toNat < 32 then
      ['\\', 'u', '0', '0', Nat.digitChar (c.toNat / 16), Nat.digitChar (c.toNat % 16)]
    else [c]

def quote (s : String) : Text := '"' :: (s.toList.flatMap escape ++ ['"'])

def newline (depth : Nat) : Text := '\n' :: List.replicate (2 * depth) ' '

mutual

/-- The text of a value whose first line is already indented to `depth`. -/
def pretty (depth : Nat) : Json → Text
  | bool b => (if b then "true" else "false").toList
  | nat n => Nat.toDigits 10 n
  | str s => quote s
  | arr [] => ['[', ']']
  | arr (j :: js) =>
    '[' :: newline (depth + 1) ++ pretty (depth + 1) j ++ prettyItems (depth + 1) js
      ++ newline depth ++ [']']
  | obj [] => ['\x7b', '\x7d']
  | obj ((key, j) :: fields) =>
    '\x7b' :: newline (depth + 1) ++ quote key ++ [':', ' '] ++ pretty (depth + 1) j
      ++ prettyFields (depth + 1) fields ++ newline depth ++ ['\x7d']

/-- The items after the first one. -/
def prettyItems (depth : Nat) : List Json → Text
  | [] => []
  | j :: js => ',' :: newline depth ++ pretty depth j ++ prettyItems depth js

/-- The fields after the first one. -/
def prettyFields (depth : Nat) : List (String × Json) → Text
  | [] => []
  | (key, j) :: fields =>
    ',' :: newline depth ++ quote key ++ [':', ' '] ++ pretty depth j ++ prettyFields depth fields

end

end Json

end ArrowLang
