import Embedding.Host.Error
import Embedding.Host.Path
import Embedding.Toml.Document

/-!
# Configurations

What a session starts its interpreter with.
-/

namespace Embedding

structure Config where
  /-- The command line. Its first entry names the program. -/
  args : List String := ["", "-e", "0"]
  includePaths : List String := []
  preload : List String := []
  /-- Whether the first use starts the interpreter. -/
  lazy : Bool := true
  deriving DecidableEq

namespace Config

/-- The command line with a switch for each directory behind the name of the program. -/
def interpreterArgs (c : Config) : List String :=
  c.args.headD "" :: (c.includePaths.map ("-I" ++ ·) ++ c.args.tail)

def texts? : Toml.Item → Option (List String)
  | .array items => items.mapM fun
    | .text s => some s
    | _ => none
  | _ => none

def bool? : Toml.Item → Option Bool
  | .bool b => some b
  | _ => none

def setting {α : Type} (entries : Dict Toml.Item) (key : String) (read : Toml.Item → Option α)
    (default : α) : Option α :=
  match entries.get? key with
  | some item => read item
  | none => some default

/-- The configuration that a document describes. Entries of other names say nothing. -/
def ofToml? (text : String) : Option Config := do
  let entries ← Toml.read text
  let standard : Config := {}
  return {
    args := ← setting entries "args" texts? standard.args
    includePaths := ← setting entries "include_paths" texts? standard.includePaths
    preload := ← setting entries "preload" texts? standard.preload
    lazy := ← setting entries "lazy_init" bool? standard.lazy }

def missingFile (path : String) : HostError := .config s!"{path}: {(Path.obstacle path).message}"

end Config

end Embedding
