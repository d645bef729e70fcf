import PathCorpus.Extraction.Config

/-!
# Configurations in documents

A configuration is written as a table of named values or as a row of values. In a table a missing
setting has its usual value and a name that is no setting is passed over. A row gives the settings
in order and may end early. Every value given for a setting has to be one unsigned 64-bit word.
-/

namespace PathCorpus

/-- A value in a document, as far as a setting can use it. -/
inductive DocumentValue where
  /-- A natural number, of any size. -/
  | number (n : Nat)
  | other
  deriving DecidableEq, Repr

/-- The limit that a value stands for. -/
def DocumentValue.limit? : DocumentValue → Option Limit
  | .number n => if n ≤ maxWord then some (.ofNat n) else none
  | .other => none

/-- A document, as far as it can be a configuration. -/
inductive ConfigDocument where
  | table (fields : List (String × DocumentValue))
  | row (values : List DocumentValue)
  | other
  deriving DecidableEq, Repr

/-- The configuration with the values given for some of the settings; none if one of them is no
word. -/
def Config.ofValues (given : Setting → Option DocumentValue) : Option Config := do
  let read (s : Setting) : Option Limit :=
    match given s with
    | none => some (Config.standard.get s)
    | some v => v.limit?
  let maxHeight ← read .maxHeight
  let maxWidth ← read .maxWidth
  let maxPathContexts ← read .maxPathContexts
  let tokenRankLimit ← read .tokenRankLimit
  let pathRankLimit ← read .pathRankLimit
  return { maxHeight, maxWidth, maxPathContexts, tokenRankLimit, pathRankLimit }

/-- The configuration that a document stands for. -/
def ConfigDocument.config? : ConfigDocument → Option Config
  | .table fields => Config.ofValues fun s => (fields.find? (·.1 = s.name)).map (·.2)
  | .row values =>
    if values.length ≤ Setting.all.length then
      Config.ofValues fun s => values[Setting.all.idxOf s]?
    else none
  | .other => none

end PathCorpus
