/-!
# Settings by name

The numbers that a run is set up with. Each of them has to be positive.
-/

namespace PathCorpus

/-- The settings of a run. -/
inductive Setting where
  | maxHeight
  | maxWidth
  | maxPathContexts
  | tokenRankLimit
  | pathRankLimit
  deriving DecidableEq, Repr

namespace Setting

/-- The name of a setting in a document and in a message. -/
def name : Setting → String
  | .maxHeight => "max_height"
  | .maxWidth => "max_width"
  | .maxPathContexts => "max_path_contexts"
  | .tokenRankLimit => "token_rank_limit"
  | .pathRankLimit => "path_rank_limit"

/-- All settings, in the order in which they are checked and in which a row of values gives
them. -/
def all : List Setting :=
  [.maxHeight, .maxWidth, .maxPathContexts, .tokenRankLimit, .pathRankLimit]

end Setting

/-- A setting is zero. -/
structure NonPositive where
  setting : Setting
  deriving DecidableEq, Repr

/-- The wording of the fault. -/
def NonPositive.message (e : NonPositive) : String := e.setting.name ++ " must be positive"

end PathCorpus
