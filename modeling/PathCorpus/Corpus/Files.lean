import PathCorpus.Corpus.Line
import PathCorpus.Lexicon.Dictionary

/-!
# The files of a corpus

A corpus is saved as four files in one directory: the dictionaries of tokens, node types and paths,
and the lines. Node types are written whatever their rank, so that every path can be spelled out.
The files are written in that order, and the first one that cannot be written ends the saving.
-/

namespace PathCorpus

/-- How the content of a file is packed. -/
inductive Packing where
  | plain
  | gzip
  deriving DecidableEq, Repr

/-- The name of a file with the ending that tells how it is packed. -/
def Packing.fileName (p : Packing) (base : String) : String :=
  match p with
  | .plain => base
  | .gzip => base ++ ".gz"

/-- A file by its name in the directory and its content before packing. -/
structure NamedFile where
  name : String
  content : String
  deriving DecidableEq, Repr

/-- A directory to save into, as far as it matters: its own name, whether it can be made, and the
names in it that no file can be written under. -/
structure Directory where
  name : String
  canBeMade : Bool := true
  occupied : List String := []
  deriving DecidableEq, Repr

/-- What saving came to: the files written, and the name at which it failed if it did. -/
structure Saving where
  written : List NamedFile
  failedAt? : Option String := none
  deriving DecidableEq, Repr

/-- Writes files one after another until a name is occupied. -/
def Directory.write (d : Directory) (files : List NamedFile) : Saving :=
  if d.canBeMade then
    { written := files.takeWhile fun f => f.name ∉ d.occupied
      failedAt? := (files.find? fun f => f.name ∈ d.occupied).map (·.name) }
  else { written := [], failedAt? := some d.name }

namespace Corpus

/-- The four files. -/
def files (c : Corpus) (cutoff : Cutoff) (packing : Packing) : List NamedFile :=
  [ ⟨packing.fileName "tokens.csv", c.tokens.dictionary cutoff.tokens⟩,
    ⟨packing.fileName "node_types.csv", c.nodeTypes.dictionary .unlimited⟩,
    ⟨packing.fileName "paths.csv", c.paths.dictionary cutoff.paths⟩,
    ⟨packing.fileName "path_contexts.csv", c.text cutoff⟩ ]

/-- Saves the corpus into a directory. -/
def save (c : Corpus) (d : Directory) (cutoff : Cutoff) (packing : Packing) : Saving :=
  d.write (c.files cutoff packing)

end Corpus

end PathCorpus
