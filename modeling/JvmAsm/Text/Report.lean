import JvmAsm.Text.Printable

/-! # How reports spell values

Error messages and trace lines show the values they are about. There is one
spelling for each shape: a case with its arguments is `Case(a, b)`, a record is
its name and its fields between braces, a list stands in brackets, and text
stands in double quotes with everything escaped that would not print as itself. -/

namespace JvmAsm.Text

/-- A natural number in lowercase hexadecimal digits. -/
def hex (n : Nat) : String :=
  String.ofList (Nat.toDigits 16 n)

/-- A natural number in at least `width` lowercase hexadecimal digits. -/
def hexPadded (width n : Nat) : String :=
  let digits := Nat.toDigits 16 n
  String.ofList (List.replicate (width - digits.length) '0' ++ digits)

/-- Text moved to the right edge of a column. -/
def alignRight (width : Nat) (text : String) : String :=
  String.ofList (List.replicate (width - text.length) ' ') ++ text

/-- One character inside double quotes. -/
def quoteChar (c : Char) : String :=
  match c with
  | '\x00' => "\\0"
  | '\t' => "\\t"
  | '\n' => "\\n"
  | '\r' => "\\r"
  | '"' => "\\\""
  | '\\' => "\\\\"
  | c => if isPrintable c then c.toString else "\\u\x7b" ++ hex c.toNat ++ "\x7d"

/-- Text in double quotes. -/
def quote (text : String) : String :=
  text.toList.foldl (fun quoted c => quoted ++ quoteChar c) "\"" ++ "\""

/-- Parts separated by commas. -/
def commas (parts : List String) : String :=
  ", ".intercalate parts

/-- A case with its arguments. -/
def case (name : String) (arguments : List String) : String :=
  name ++ "(" ++ commas arguments ++ ")"

/-- A list in brackets. -/
def brackets (parts : List String) : String :=
  "[" ++ commas parts ++ "]"

/-- A record with its fields. -/
def record (name : String) (fields : List (String × String)) : String :=
  name ++ " \x7b " ++ commas (fields.map fun (field, value) => field ++ ": " ++ value) ++ " \x7d"

end JvmAsm.Text
