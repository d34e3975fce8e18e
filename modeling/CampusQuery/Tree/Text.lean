import CampusQuery.Double.Text
import CampusQuery.Tree.Basic

/-! The compact JSON text of a tree. -/

namespace CampusQuery.Tree

def escapedChar (c : Char) : List Char :=
  match c with
  | '"' => ['\\', '"']
  | '\\' => ['\\', '\\']
  | '\n' => ['\\', 'n']
  | '\r' => ['\\', 'r']
  | '\t' => ['\\', 't']
  | _ =>
    if c.toNat < 0x20 then
      ['\\', 'u', '0', '0', Nat.digitChar (c.toNat / 16), Nat.digitChar (c.toNat % 16)]
    else [c]

def escaped (s : String) : List Char := '"' :: s.toList.flatMap escapedChar ++ ['"']

mutual

def chars : Tree → List Char
  | null => "null".toList
  | bool b => if b then "true".toList else "false".toList
  | number x => x.text.toList
  | text s => escaped s
  | array [] => ['[', ']']
  | array (x :: xs) => '[' :: x.chars ++ charsOfItems xs
  | object [] => ['\x7b', '\x7d']
  | object ((key, x) :: rest) => '\x7b' :: escaped key ++ ':' :: x.chars ++ charsOfEntries rest

/-- What follows the first item of an array. -/
def charsOfItems : List Tree → List Char
  | [] => [']']
  | x :: xs => ',' :: x.chars ++ charsOfItems xs

/-- What follows the first entry of an object. -/
def charsOfEntries : List (String × Tree) → List Char
  | [] => ['\x7d']
  | (key, x) :: rest => ',' :: escaped key ++ ':' :: x.chars ++ charsOfEntries rest

end

def toText (t : Tree) : String := String.ofList t.chars

example : (object [("a", array [null, bool true]), ("b\n", number .negativeZero)]).toText =
    "\x7b\"a\":[null,true],\"b\\n\":-0\x7d" := by decide +kernel

end CampusQuery.Tree
