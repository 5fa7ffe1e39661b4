import PascalCasl.Code.Listing
import PascalCasl.Grammar.Cursor
import PascalCasl.Library.Basic
import PascalCasl.Token.Scanner
import PascalCasl.Typing.Check

/-!
The compiler: tokens are parsed and checked, code is generated, and a support
library is added to it.
-/

namespace PascalCasl

def Program.accept (tokens : List Token) : Except Fault Program := do
  let program ← Program.ofTokens tokens
  program.check
  .ok program

def compileWith (library : String) (tokens : List Token) : Except Fault String := do
  let program ← Program.accept tokens
  let assembly ← program.assembly
  .ok (Library.append assembly library)

/-- The assembly text of a source text, with the bundled library. -/
def compile (source : String) : Except Fault String := do
  let tokens ← Token.scan source
  compileWith Library.bundled tokens

end PascalCasl
