import TokenDispatch.Text.Unprintable

/-!
Quoted text: a string between double quotes, in which nothing is invisible. Four control characters,
the quote and the backslash are written with a backslash and a letter or themselves; any other
unprintable character is written as its number in hexadecimal.
-/

namespace TokenDispatch.Text

def escape (c : Char) : List Char :=
  match c with
  | '\x00' => ['\\', '0']
  | '\t' => ['\\', 't']
  | '\r' => ['\\', 'r']
  | '\n' => ['\\', 'n']
  | '"' => ['\\', '"']
  | '\\' => ['\\', '\\']
  | c =>
      if isUnprintable c then
        ['\\', 'u', '\x7b'] ++ Nat.toDigits 16 c.toNat ++ ['\x7d']
      else [c]

def quoted (s : String) : String :=
  "\"" ++ String.ofList (s.toList.flatMap escape) ++ "\""

end TokenDispatch.Text
