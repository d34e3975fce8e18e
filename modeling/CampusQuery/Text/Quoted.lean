import CampusQuery.Text.Printable

/-! Text in double quotes on one line, as error messages and plan summaries show it. -/

namespace CampusQuery

def quotedChar (c : Char) : List Char :=
  match c with
  | '"' => ['\\', '"']
  | '\\' => ['\\', '\\']
  | '\n' => ['\\', 'n']
  | '\r' => ['\\', 'r']
  | '\t' => ['\\', 't']
  | '\x00' => ['\\', '0']
  | _ =>
    if isPrintable c then [c]
    else '\\' :: 'u' :: '\x7b' :: Nat.toDigits 16 c.toNat ++ ['\x7d']

def quoted (s : String) : String :=
  String.ofList ('"' :: s.toList.flatMap quotedChar ++ ['"'])

/-- Texts in square brackets, each quoted. -/
def quotedList (texts : List String) : String :=
  "[" ++ ", ".intercalate (texts.map quoted) ++ "]"

example : quoted "a\tbé\u2028" = "\"a\\tbé\\u\x7b2028\x7d\"" := by decide +kernel

example : quotedList ["a", "b"] = "[\"a\", \"b\"]" := by decide +kernel

end CampusQuery
