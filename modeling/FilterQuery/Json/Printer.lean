import FilterQuery.Binary64.Notation
import FilterQuery.Json.Escape
import FilterQuery.Json.Value
import FilterQuery.Text.Quoted

/-!
# JSON text of a value

Compact text: no white space, the fields of an object in their order, strings escaped as little as
the format allows.
-/

namespace FilterQuery.Json

def Number.chars : Number → List Char
  | .int (.ofNat n) => Nat.toDigits 10 n
  | .int (.negSucc n) => '-' :: Nat.toDigits 10 (n + 1)
  | .float x => x.chars

def stringChars (s : String) : List Char :=
  Text.quoted '"' Escape.encodeChar s.toList

namespace Value

mutual

def chars : Value → List Char
  | .null => ['n', 'u', 'l', 'l']
  | .bool true => ['t', 'r', 'u', 'e']
  | .bool false => ['f', 'a', 'l', 's', 'e']
  | .number n => n.chars
  | .string s => stringChars s
  | .array [] => ['[', ']']
  | .array (item :: items) => '[' :: chars item ++ moreItems items
  | .object [] => ['{', '}']
  | .object ((name, value) :: fields) =>
    '{' :: stringChars name ++ ':' :: chars value ++ moreFields fields

def moreItems : List Value → List Char
  | [] => [']']
  | item :: items => ',' :: chars item ++ moreItems items

def moreFields : List (String × Value) → List Char
  | [] => ['}']
  | (name, value) :: fields => ',' :: stringChars name ++ ':' :: chars value ++ moreFields fields

end

def text (v : Value) : String :=
  String.ofList v.chars

end Value

end FilterQuery.Json
