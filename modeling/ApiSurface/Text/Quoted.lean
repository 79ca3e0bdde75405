import ApiSurface.Text.Basic
/-!
# Quoted text

How a text is shown inside a displayed type or value: between double quotes, with the usual
backslash escapes, and with the characters that do not show on their own spelled by number.
-/

namespace ApiSurface.Text

/-- A number in hexadecimal, with small letters and no leading zero. -/
def hex (n : Nat) : String := String.ofList (Nat.toDigits 16 n)

def quotedChar (c : Char) : String :=
  match c with
  | '"' => "\\\""
  | '\\' => "\\\\"
  | '\n' => "\\n"
  | '\r' => "\\r"
  | '\t' => "\\t"
  | _ =>
    if c.toNat = 0 then "\\0"
    else if isHidden c then "\\u\x7b" ++ hex c.toNat ++ "\x7d"
    else c.toString

def quoted (s : String) : String :=
  "\"" ++ String.join (s.toList.map quotedChar) ++ "\""

end ApiSurface.Text
