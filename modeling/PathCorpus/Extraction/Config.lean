import PathCorpus.Corpus.Line
import PathCorpus.LeafPath.Search

/-!
# Configurations

The five numbers of a run: bounds on paths, the most path contexts taken from one tree, and the
rank limits of its output. A configuration is valid when all of them are positive.

Main statement: `fault?_eq_none`, the check finds nothing exactly on a valid configuration.
-/

namespace PathCorpus

/-- The settings of a run, with their usual values. -/
structure Config where
  maxHeight : Limit := .atMost 5
  maxWidth : Limit := .atMost 5
  maxPathContexts : Limit := .atMost 500
  tokenRankLimit : Limit := .unlimited
  pathRankLimit : Limit := .unlimited
  deriving DecidableEq, Repr

namespace Config

/-- The configuration with the usual values. -/
def standard : Config := {}

/-- The value of a setting. -/
def get (c : Config) : Setting → Limit
  | .maxHeight => c.maxHeight
  | .maxWidth => c.maxWidth
  | .maxPathContexts => c.maxPathContexts
  | .tokenRankLimit => c.tokenRankLimit
  | .pathRankLimit => c.pathRankLimit

/-- Every setting is positive. -/
def Valid (c : Config) : Prop := ∀ s, (c.get s).Positive

/-- The first setting that is not positive. -/
def fault? (c : Config) : Option NonPositive :=
  (Setting.all.find? fun s => decide ¬(c.get s).Positive).map (⟨·⟩)

theorem fault?_eq_none {c : Config} : c.fault? = none ↔ c.Valid := by
  simp only [fault?, Option.map_eq_none_iff, List.find?_eq_none, decide_eq_true_eq,
    Decidable.not_not]
  refine ⟨fun h s => h s ?_, fun h s _ => h s⟩
  cases s <;> simp [Setting.all]

theorem valid_standard : standard.Valid := fault?_eq_none.mp (by decide)

/-- The bounds that a valid configuration puts on paths. -/
def bounds (c : Config) (h : c.Valid) : PathBounds where
  maxHeight := c.maxHeight
  maxWidth := c.maxWidth
  maxHeight_positive := h .maxHeight
  maxWidth_positive := h .maxWidth

/-- The greatest ranks that are written. -/
def cutoff (c : Config) : Cutoff := { tokens := c.tokenRankLimit, paths := c.pathRankLimit }

end Config

end PathCorpus
