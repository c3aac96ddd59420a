import PubSub.Text.Shape

/-!
# Quoted text

Text between double quotes for diagnostics: double quotes, backslashes and characters without a shape are escaped.
-/

namespace PubSub.Text

private def hexDigits (n : Nat) : String :=
  String.ofList (Nat.toDigits 16 n)

private def escaped (c : Char) : String :=
  match c with
  | '\x00' => "\\0"
  | '\t' => "\\t"
  | '\n' => "\\n"
  | '\r' => "\\r"
  | '"' => "\\\""
  | '\\' => "\\\\"
  | c => if isShapeless c then "\\u\x7b" ++ hexDigits c.toNat ++ "\x7d" else c.toString

def diagnostic (s : String) : String :=
  "\"" ++ String.join (s.toList.map escaped) ++ "\""

end PubSub.Text
