import PascalCasl.Fault
import PascalCasl.Grammar.Program

/-!
A cursor in a list of tokens. The list ends with an end mark; parsing reads
from the cursor to the next end mark and leaves the cursor where reading
stopped, so that a later parse goes on from there. Beyond the list stands its
last end mark.
-/

namespace PascalCasl

/-- The tokens with an end mark after them, on the line of the last token. -/
def closeTokens (tokens : List Token) : List Token :=
  match tokens.getLast? with
  | none => [Token.endOfInput 1]
  | some last => if last.isEnd then tokens else tokens ++ [Token.endOfInput last.line]

structure Cursor where
  tokens : List Token
  index : Nat

namespace Cursor

def ofTokens (tokens : List Token) : Cursor := ⟨closeTokens tokens, 0⟩

def upcoming (cursor : Cursor) : List Token := cursor.tokens.drop cursor.index

/-- The tokens from the cursor to the next end mark. -/
def input (cursor : Cursor) : List Token := cursor.upcoming.takeWhile fun token => !token.isEnd

def endLine (cursor : Cursor) : Nat :=
  match cursor.upcoming.find? Token.isEnd, cursor.tokens.getLast? with
  | some mark, _ => mark.line
  | none, some last => last.line
  | none, none => 1

def parse (cursor : Cursor) : Except Fault Program × Cursor :=
  match Grammar.sentence cursor.input with
  | .ok tree => (.ok tree, { cursor with index := cursor.index + cursor.input.length })
  | .error failure =>
      (.error (.syntactic (failure.line cursor.endLine)),
        { cursor with index := cursor.index + (cursor.input.length - failure.rest.length) })

end Cursor

def Program.ofTokens (tokens : List Token) : Except Fault Program :=
  (Cursor.ofTokens tokens).parse.1

end PascalCasl
