import X64Backend.Text.Lines

/-!
The files that a program reaches from the directory it starts in: a directory of plain files below
the one for temporary files.  Of the world outside only the standard directories and a few devices
are known.
-/

namespace X64Backend.Cli

inductive WriteError where
  | notFound
  | isDirectory
  | notDirectory
  | nameTooLong
  | noSpace
  deriving DecidableEq, Repr

namespace WriteError

def message : WriteError → String
  | notFound => "no such file or directory"
  | isDirectory => "is a directory"
  | notDirectory => "not a directory"
  | nameTooLong => "file name too long"
  | noSpace => "no space left on device"

/-- What was tried when the error arose. -/
def action : WriteError → String
  | noSpace => "write"
  | _ => "open"

end WriteError

/-- What a path leads to. -/
inductive Sink where
  /-- A file of the working directory. -/
  | file (name : String)
  | stdout
  | stderr
  /-- A file that is not looked at again. -/
  | elsewhere
  /-- A file that takes nothing. -/
  | full
  deriving DecidableEq, Repr

/-- A directory that a path leads through. -/
inductive Folder where
  | here
  /-- A directory outside, by its path from the root. -/
  | outside (path : List String)
  deriving DecidableEq, Repr

namespace Folder

def nameLimit : Nat := 255

def standard : List String :=
  ["bin", "boot", "dev", "etc", "home", "lib", "media", "mnt", "opt", "proc", "root", "run", "sbin",
    "srv", "sys", "tmp", "usr", "var"]

def isKnown (path : List String) : Bool :=
  match path with
  | [] => true
  | [name] => standard.contains name
  | _ => false

def device? (path : List String) : Option Sink :=
  match path with
  | ["dev", "null"] => some .elsewhere
  | ["dev", "zero"] => some .elsewhere
  | ["dev", "full"] => some .full
  | ["dev", "stdout"] => some .stdout
  | ["dev", "stderr"] => some .stderr
  | _ => none

def parent : Folder → Folder
  | here => outside ["tmp"]
  | outside path => outside path.dropLast

end Folder

structure Directory where
  files : List (String × String)
  deriving Repr

namespace Directory

def empty : Directory := ⟨[]⟩

def put (directory : Directory) (name contents : String) : Directory :=
  ⟨directory.files.filter (fun file => file.1 ≠ name) ++ [(name, contents)]⟩

/-- The directory with a given name in a folder. -/
def enter (directory : Directory) (folder : Folder) (name : String) : Except WriteError Folder :=
  if Folder.nameLimit < name.utf8ByteSize then .error .nameTooLong
  else
    match folder with
    | .here =>
        if (directory.files.lookup name).isSome then .error .notDirectory else .error .notFound
    | .outside path =>
        if Folder.isKnown (path ++ [name]) then .ok (.outside (path ++ [name]))
        else if (Folder.device? (path ++ [name])).isSome then .error .notDirectory
        else .error .notFound

/-- The file with a given name in a folder, which need not exist. -/
def target (folder : Folder) (name : String) : Except WriteError Sink :=
  if Folder.nameLimit < name.utf8ByteSize then .error .nameTooLong
  else
    match folder with
    | .here => .ok (.file name)
    | .outside path =>
        if Folder.isKnown (path ++ [name]) then .error .isDirectory
        else .ok ((Folder.device? (path ++ [name])).getD .elsewhere)

/-- Follows the parts of a path.  A path that ends in a slash or in dots is one of a directory. -/
def follow (directory : Directory) : Folder → List String → Except WriteError Sink
  | _, [] => .error .isDirectory
  | folder, part :: rest =>
      if part = "" || part = "." then follow directory folder rest
      else if part = ".." then follow directory folder.parent rest
      else if rest.isEmpty then target folder part
      else if rest.all (· = "") then .error .isDirectory
      else
        match directory.enter folder part with
        | .error error => .error error
        | .ok inner => follow directory inner rest

/-- The least number of bytes that is too long for a path. -/
def pathLimit : Nat := 4096

def find (directory : Directory) (path : String) : Except WriteError Sink :=
  if pathLimit ≤ path.utf8ByteSize then .error .nameTooLong
  else
    directory.follow (if path.startsWith "/" then .outside [] else .here) (path.splitOn "/")

end Directory

end X64Backend.Cli
