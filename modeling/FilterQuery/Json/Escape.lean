/-!
# Escapes in JSON strings

Writing: a quotation mark, a backslash and the characters below U+0020 are escaped, five of them by
a letter and the others by four lower-case hexadecimal digits; all else stands for itself. Reading:
every escape of the format is understood, and two escapes that are halves of a surrogate pair give
one character; a half alone denotes nothing.
-/

namespace FilterQuery.Json.Escape

/-- The character behind the backslash, for characters that have a short escape. -/
def letter? (c : Char) : Option Char :=
  if c = '"' then some '"'
  else if c = '\\' then some '\\'
  else if c = '\x08' then some 'b'
  else if c = '\x0c' then some 'f'
  else if c = '\n' then some 'n'
  else if c = '\r' then some 'r'
  else if c = '\t' then some 't'
  else none

def hexDigit (n : Nat) : Char :=
  if n < 10 then Char.ofNat (48 + n) else Char.ofNat (87 + n)

def encodeChar (c : Char) : List Char :=
  match letter? c with
  | some letter => ['\\', letter]
  | none =>
    if c.toNat < 0x20 then ['\\', 'u', '0', '0', hexDigit (c.toNat / 16), hexDigit (c.toNat % 16)]
    else [c]

/-- The character that a short escape stands for. -/
def unletter? (c : Char) : Option Char :=
  if c = '"' then some '"'
  else if c = '\\' then some '\\'
  else if c = '/' then some '/'
  else if c = 'b' then some '\x08'
  else if c = 'f' then some '\x0c'
  else if c = 'n' then some '\n'
  else if c = 'r' then some '\r'
  else if c = 't' then some '\t'
  else none

def hexValue? (c : Char) : Option Nat :=
  if '0' ≤ c ∧ c ≤ '9' then some (c.toNat - 48)
  else if 'a' ≤ c ∧ c ≤ 'f' then some (c.toNat - 87)
  else if 'A' ≤ c ∧ c ≤ 'F' then some (c.toNat - 55)
  else none

/-- The 16-bit unit that four hexadecimal digits give. -/
def unit? (a b c d : Char) : Option Nat := do
  return (← hexValue? a) * 4096 + (← hexValue? b) * 256 + (← hexValue? c) * 16 + (← hexValue? d)

def isHigh (u : Nat) : Bool := 0xD800 ≤ u && u < 0xDC00

def isLow (u : Nat) : Bool := 0xDC00 ≤ u && u < 0xE000

def pair (high low : Nat) : Char :=
  Char.ofNat (0x10000 + (high - 0xD800) * 0x400 + (low - 0xDC00))

/-- The text between the quotation marks of a string, up to the mark that ends it, and what follows
that mark. Refuses a string without an end, raw control characters and unknown escapes; surrogates
are not looked at. -/
def body? : List Char → Option (List Char × List Char)
  | [] => none
  | '"' :: rest => some ([], rest)
  | '\\' :: 'u' :: a :: b :: c :: d :: rest =>
    match unit? a b c d, body? rest with
    | some _, some (body, after) => some ('\\' :: 'u' :: a :: b :: c :: d :: body, after)
    | _, _ => none
  | '\\' :: letter :: rest =>
    match unletter? letter, body? rest with
    | some _, some (body, after) => some ('\\' :: letter :: body, after)
    | _, _ => none
  | c :: rest =>
    if c.toNat < 0x20 then none
    else match body? rest with
      | some (body, after) => some (c :: body, after)
      | none => none

/-- The characters that a text between quotation marks denotes. -/
def decode? : List Char → Option (List Char)
  | [] => some []
  | '\\' :: 'u' :: a :: b :: c :: d :: rest =>
    match unit? a b c d with
    | none => none
    | some u =>
      if isHigh u then
        match rest with
        | '\\' :: 'u' :: a' :: b' :: c' :: d' :: rest' =>
          match unit? a' b' c' d' with
          | none => none
          | some v => if isLow v then (decode? rest').map (pair u v :: ·) else none
        | _ => none
      else if isLow u then none
      else (decode? rest).map (Char.ofNat u :: ·)
  | '\\' :: letter :: rest =>
    match unletter? letter with
    | none => none
    | some c => (decode? rest).map (c :: ·)
  | c :: rest => (decode? rest).map (c :: ·)

end FilterQuery.Json.Escape
