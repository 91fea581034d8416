import BitTape.Bytes

/-!
# What the command finds around it

Files, standard input, the clock and the version.  A flat directory is a table of files: a path is
followed one component at a time, and the first component that leads nowhere decides the error.
-/

namespace BitTape

/-- Why a file could not be read. -/
inductive FileError where
  /-- There is no such file. -/
  | missing
  /-- It is a directory. -/
  | directory
  /-- A part of its path is a file and not a directory. -/
  | notDirectory
  /-- It may not be read. -/
  | denied
  /-- Its name is too long. -/
  | longName
  /-- Its name has a zero byte. -/
  | invalidName
  deriving DecidableEq

/-- How a file error is reported.  A directory can be opened, but not read. -/
def FileError.message (name : Bytes) : FileError → Bytes
  | missing => text "open " ++ name ++ text ": no such file or directory"
  | directory => text "read " ++ name ++ text ": is a directory"
  | notDirectory => text "open " ++ name ++ text ": not a directory"
  | denied => text "open " ++ name ++ text ": permission denied"
  | longName => text "open " ++ name ++ text ": file name too long"
  | invalidName => text "open " ++ name ++ text ": invalid argument"

/-- A directory that holds files only. -/
structure Directory where
  files : List (Bytes × Bytes)
  deriving DecidableEq

namespace Directory

/-- The separator of path components. -/
def slash : UInt8 :=
  ascii '/'

/-- The greatest length of a path. -/
def maxPath : Nat :=
  4095

/-- The greatest length of a component of a path. -/
def maxName : Nat :=
  255

/-- The component that stays in a directory. -/
def stay : Bytes :=
  text "."

/-- The component that leaves a directory for the one that holds it. -/
def leave : Bytes :=
  text ".."

/-- The components of a path, without empty ones; a slash at the end counts as one that stays. -/
def components (path : Bytes) : List Bytes :=
  (pieces
    (fun byte rest =>
      if byte = slash then (if rest.isEmpty then some stay else none, 0)
      else
        let more := rest.takeWhile (· != slash)
        (some (byte :: more), more.length))
    path).filterMap id

/-- Follow components from the directory, if `inside`, or from one outside that has no files. -/
def follow (directory : Directory) : (inside : Bool) → List Bytes → Except FileError Bytes
  | _, [] => .error .directory
  | inside, name :: rest =>
      if name = stay then directory.follow inside rest
      else if name = leave then directory.follow false rest
      else if maxName < name.length then .error .longName
      else
        match if inside then directory.files.lookup name else none with
        | none => .error .missing
        | some content => if rest.isEmpty then .ok content else .error .notDirectory

/-- Read a file by its path, which starts outside of the directory if it starts with a slash. -/
def read (directory : Directory) (path : Bytes) : Except FileError Bytes :=
  if path.contains 0 then .error .invalidName
  else if path.isEmpty then .error .missing
  else if maxPath < path.length then .error .longName
  else directory.follow (path.head? != some slash) (components path)

end Directory

/-- Standard input. -/
inductive StandardInput where
  /-- Someone at a terminal. -/
  | terminal
  /-- Bytes to be read, and the failure that follows them if it is not their end. -/
  | stream (bytes : Bytes) (failure : Option Bytes)
  deriving DecidableEq

/-- The surroundings of a command. -/
structure Host where
  /-- The version that was set when the command was built, or nothing. -/
  version : Bytes
  /-- The version that the build information names, if there is any. -/
  build : Option Bytes := some (text "(devel)")
  /-- The content of a file. -/
  files : Bytes → Except FileError Bytes
  stdin : StandardInput
  /-- The time of day, as log lines show it. -/
  now : Bytes
  /-- The time that a run takes, as log lines show it. -/
  elapsed : Bytes

end BitTape
