/-!
# Quoted characters

A character is shown between single quotes. Tab, line ends, quotes and the backslash are written
with a backslash, other printable ASCII stands for itself, and the rest is a code point in braces.
-/

namespace MemoryKit.Text

def escapeLetter? : Char → Option Char
  | '\t' => some 't'
  | '\r' => some 'r'
  | '\n' => some 'n'
  | '\'' => some '\''
  | '"' => some '"'
  | '\\' => some '\\'
  | _ => none

def escape (c : Char) : List Char :=
  match escapeLetter? c with
  | some letter => ['\\', letter]
  | none =>
    if 0x20 ≤ c.toNat ∧ c.toNat ≤ 0x7E then [c]
    else ['\\', 'u', '\x7b'] ++ Nat.toDigits 16 c.toNat ++ ['\x7d']

def quoteChar (c : Char) : List Char :=
  ['\''] ++ escape c ++ ['\'']

end MemoryKit.Text
