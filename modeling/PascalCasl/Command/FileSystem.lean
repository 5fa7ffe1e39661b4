/-!
What a command needs from its surroundings: a file system and two channels for
text. A file system may refuse to open or to make any file.
-/

namespace PascalCasl

inductive AccessCause where
  | notFound
  | denied
  | notDirectory
  | isDirectory
  | tooManyLinks
  | notText
  | other (text : String)
  deriving DecidableEq

def AccessCause.message : AccessCause → String
  | .notFound => "No such file or directory (os error 2)"
  | .denied => "Permission denied (os error 13)"
  | .notDirectory => "Not a directory (os error 20)"
  | .isDirectory => "Is a directory (os error 21)"
  | .tooManyLinks => "Too many levels of symbolic links (os error 40)"
  | .notText => "stream did not contain valid UTF-8"
  | .other text => text

class FileSystem (Files : Type) where
  isFile : Files → String → Bool
  isDirectory : Files → String → Bool
  read : Files → String → Except AccessCause (List UInt8)
  /-- Replaces the content of a file, or makes the file. -/
  write : Files → String → List UInt8 → Except AccessCause Unit × Files

/-- What a path leads to. A special file is neither read nor kept. -/
inductive Found (File : Type) where
  | directory
  | file (file : File)
  | special
  deriving DecidableEq

structure World (Files : Type) where
  files : Files
  printed : String
  /-- What is printed on the channel for diagnostics. -/
  reported : String

end PascalCasl
