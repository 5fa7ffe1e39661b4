/-!
Quoted literals: a quote inside the text is written twice, and one quote stands
at each end. Pascal strings and CASL II character constants share this form.
-/

namespace PascalCasl.Text

def quoteMark : Char := '\''

def doubleQuotes : List Char → List Char
  | [] => []
  | c :: rest =>
      if c = quoteMark then c :: c :: doubleQuotes rest else c :: doubleQuotes rest

/-- Replaces each pair of quotes by one, pairing from the left. A quote without
a partner stays. -/
def foldQuotes : List Char → List Char
  | '\'' :: '\'' :: rest => quoteMark :: foldQuotes rest
  | c :: rest => c :: foldQuotes rest
  | [] => []

def quoted (text : String) : String :=
  String.ofList (quoteMark :: doubleQuotes text.toList ++ [quoteMark])

/-- The text of a literal: it begins and ends with a quote, which must not be
the same one. -/
def unquoted? (literal : String) : Option String :=
  match literal.toList with
  | [] => none
  | first :: rest =>
      if first = quoteMark ∧ rest.getLast? = some quoteMark then
        some (String.ofList (foldQuotes rest.dropLast))
      else none

end PascalCasl.Text
