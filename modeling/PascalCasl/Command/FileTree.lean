import PascalCasl.Command.FileSystem
import PascalCasl.Command.Path

/-!
A tree of names with a working directory. A place in the tree is the list of
names that leads to it from the root. Names stand for directories, for special
files, for other paths, or for files, of which one may have several names.
-/

namespace PascalCasl

/-- What is allowed with a file or a directory. A directory is used to go through
it, and changed by new names. -/
structure Access where
  use : Bool
  change : Bool
  deriving DecidableEq

def Access.full : Access := ⟨true, true⟩

inductive Entry where
  | directory (access : Access)
  | file (number : Nat)
  | link (target : String)
  | special
  deriving DecidableEq

structure FileTree where
  entries : List (List String × Entry)
  /-- The contents of the files, by their numbers. -/
  files : List (List UInt8 × Access)
  working : List String

namespace FileTree

/-- The root is a directory in every tree. -/
def entry? (tree : FileTree) (place : List String) : Option Entry :=
  if place = [] then some (.directory .full) else tree.entries.lookup place

def put (tree : FileTree) (place : List String) (entry : Entry) : FileTree :=
  { tree with entries := (place, entry) :: tree.entries.filter fun old => old.1 ≠ place }

/-- Follows steps from a place up to the next link, where `onward` goes on. Each
step is taken in a directory, and the last place need not exist. -/
def follow (tree : FileTree) (onward : List String → List String → Except AccessCause (List String))
    (place : List String) : List String → Except AccessCause (List String)
  | [] => .ok place
  | step :: rest =>
      match tree.entry? place with
      | some (.directory access) =>
          if !access.use then .error .denied
          else if step = "." then tree.follow onward place rest
          else if step = ".." then tree.follow onward place.dropLast rest
          else
            match tree.entry? (place ++ [step]) with
            | some (.link target) =>
                onward (if Path.isAbsolute target then [] else place) (Path.walked target ++ rest)
            | _ => tree.follow onward (place ++ [step]) rest
      | some _ => .error .notDirectory
      | none => .error .notFound

/-- Follows steps from a place through so many links. -/
def walk (tree : FileTree) : Nat → List String → List String → Except AccessCause (List String)
  | 0 => tree.follow fun _ _ => .error .tooManyLinks
  | links + 1 => tree.follow (tree.walk links)

def reach (tree : FileTree) (path : String) (steps : List String) :
    Except AccessCause (List String) :=
  tree.walk 40 (if Path.isAbsolute path then [] else tree.working) steps

def found? (tree : FileTree) (place : List String) : Option (Found Nat) :=
  match tree.entry? place with
  | some (.directory _) => some .directory
  | some (.file number) => if number < tree.files.length then some (.file number) else none
  | some .special => some .special
  | _ => none

def find (tree : FileTree) (path : String) : Except AccessCause (Found Nat) := do
  let place ← tree.reach path (Path.walked path)
  match tree.found? place with
  | some found => .ok found
  | none => .error .notFound

def read (tree : FileTree) (path : String) : Except AccessCause (List UInt8) := do
  match ← tree.find path with
  | .directory => .error .isDirectory
  | .special => .ok []
  | .file number =>
      match tree.files[number]? with
      | some (bytes, access) => if access.use then .ok bytes else .error .denied
      | none => .error .notFound

def withContent (tree : FileTree) (number : Nat) (bytes : List UInt8) (access : Access) :
    FileTree :=
  { tree with files := tree.files.set number (bytes, access) }

def withFile (tree : FileTree) (place : List String) (bytes : List UInt8) : FileTree :=
  { tree.put place (.file tree.files.length) with files := tree.files ++ [(bytes, .full)] }

/-- Writes to what is at a place, or makes a file there. -/
def fill (tree : FileTree) (place : List String) (bytes : List UInt8) :
    Except AccessCause FileTree :=
  match tree.entry? place with
  | some (.directory _) => .error .isDirectory
  | some .special => .ok tree
  | some (.link _) => .error .tooManyLinks
  | some (.file number) =>
      match tree.files[number]? with
      | some (_, access) =>
          if access.change then .ok (tree.withContent number bytes access) else .error .denied
      | none => .error .notFound
  | none =>
      match tree.entry? place.dropLast with
      | some (.directory access) =>
          if access.change then .ok (tree.withFile place bytes) else .error .denied
      | _ => .error .notFound

def overwrite (tree : FileTree) (path : String) (bytes : List UInt8) :
    Except AccessCause FileTree :=
  match (Path.steps path).getLast? with
  | none => .error .isDirectory
  | some last =>
      if last = "." ∨ last = ".." then do
        let _ ← tree.find path
        .error .isDirectory
      else do
        let place ← tree.reach path (Path.steps path)
        if Path.namesDirectory path then .error .isDirectory else tree.fill place bytes

def isFile (tree : FileTree) (path : String) : Bool :=
  match tree.find path with
  | .ok (.file _) => true
  | _ => false

def isDirectory (tree : FileTree) (path : String) : Bool :=
  match tree.find path with
  | .ok .directory => true
  | _ => false

def write (tree : FileTree) (path : String) (bytes : List UInt8) :
    Except AccessCause Unit × FileTree :=
  match tree.overwrite path bytes with
  | .ok after => (.ok (), after)
  | .error cause => (.error cause, tree)

instance : FileSystem FileTree := ⟨isFile, isDirectory, read, write⟩

end FileTree
end PascalCasl
