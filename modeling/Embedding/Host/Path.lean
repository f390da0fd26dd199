/-!
# Paths that lead to no file

What stops a reader on the way along a path to a file that is not there. The path is refused as a
whole or at the first name that leads on to nothing.
-/

namespace Embedding.Path

inductive Obstacle
  /-- No path can hold the character NUL. -/
  | nul
  /-- The path, or a name in it, has more bytes than one can have. -/
  | tooLong
  | notFound
  /-- The path leads to a directory, which has no text. -/
  | isDirectory
  deriving DecidableEq

def Obstacle.message : Obstacle → String
  | .nul => "file name contained an unexpected NUL byte"
  | .tooLong => "File name too long (os error 36)"
  | .notFound => "No such file or directory (os error 2)"
  | .isDirectory => "Is a directory (os error 21)"

/-- How many bytes a name in a path can have. -/
def maxName : Nat := 255

/-- How many bytes a path can have. -/
def maxPath : Nat := 4095

/-- Whether the name leads to a directory wherever it stands: to the same one or to the one above. -/
def isStanding (name : String) : Bool := name = "" || name = "." || name = ".."

/-- What stops a walk along the names of a path: the first that leads on to nothing, or else the
directory at the end. -/
def walk : List String → Obstacle
  | [] => .isDirectory
  | name :: names =>
    if isStanding name then walk names
    else if maxName < name.utf8ByteSize then .tooLong
    else .notFound

/-- What stops a reader at a path. -/
def obstacle (path : String) : Obstacle :=
  if path.toList.contains '\x00' then .nul
  else if path = "" then .notFound
  else if maxPath < path.utf8ByteSize then .tooLong
  else walk (path.splitOn "/")

end Embedding.Path
