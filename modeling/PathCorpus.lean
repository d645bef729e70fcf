import PathCorpus.Limit
import PathCorpus.Attempt
import PathCorpus.Text.Blank
import PathCorpus.Text.Quoted
import PathCorpus.Text.Line
import PathCorpus.Gzip.Member
import PathCorpus.Arena.Edit
import PathCorpus.Arena.Defect
import PathCorpus.Arena.Walk
import PathCorpus.Arena.Unbounded
import PathCorpus.Ast.Numbering
import PathCorpus.Ast.Stacked
import PathCorpus.SExpr.Nesting
import PathCorpus.SExpr.Reading
import PathCorpus.SExpr.Parse
import PathCorpus.SExpr.Printer
import PathCorpus.SExpr.Unbounded
import PathCorpus.LeafPath.Search
import PathCorpus.LeafPath.Cursor
import PathCorpus.Lexicon.Dictionary
import PathCorpus.Lexicon.Ranked
import PathCorpus.Corpus.Files
import PathCorpus.Sample.Reader
import PathCorpus.Extraction.ConfigDocument
import PathCorpus.Extraction.Basic
import PathCorpus.Proofs.Arena.Check
import PathCorpus.Proofs.Arena.Walk
import PathCorpus.Proofs.Arena.Ancestors
import PathCorpus.Proofs.LeafPath.Exact
import PathCorpus.Proofs.Extraction.Batch
import PathCorpus.Proofs.Ast.InPreOrder
import PathCorpus.Proofs.Corpus.Decoder
import PathCorpus.Proofs.Extraction.Run
import PathCorpus.Proofs.SExpr.Grammar
import PathCorpus.Proofs.SExpr.Language
import PathCorpus.Proofs.Arena.Tree
import PathCorpus.Proofs.Corpus.Coding
import PathCorpus.Proofs.Corpus.Counts
import PathCorpus.Proofs.Extraction.Account
import PathCorpus.Proofs.Lexicon.Rank
import PathCorpus.Proofs.Lexicon.Observations
import PathCorpus.Proofs.Text.Cut
import PathCorpus.Proofs.Sample.Lines
import PathCorpus.Proofs.Extraction.Removal
import PathCorpus.Proofs.Corpus.Cutoff
import PathCorpus.Proofs.Corpus.Continuation
import PathCorpus.Proofs.SExpr.Printed
import PathCorpus.Proofs.Sample.Printed
import PathCorpus.Proofs.Extraction.Texts
import PathCorpus.Proofs.Arena.Renaming
import PathCorpus.Proofs.Ast.ByFamilies
import PathCorpus.Proofs.LeafPath.Renaming
import PathCorpus.Proofs.Ast.Unfolding
import PathCorpus.Proofs.Extraction.Unfolding
import PathCorpus.Proofs.Arena.Walkable
import PathCorpus.Proofs.LeafPath.Cursor
import PathCorpus.Proofs.Ast.Stacked
import PathCorpus.Proofs.Corpus.Reordering
import PathCorpus.Proofs.Extraction.Reordering
import PathCorpus.Proofs.Arena.Route
import PathCorpus.Proofs.LeafPath.Simple
import PathCorpus.Proofs.Lexicon.Rows
import PathCorpus.Proofs.SExpr.Unbounded
import PathCorpus.Proofs.SExpr.Beginnings
import PathCorpus.Proofs.SExpr.Refusals
import PathCorpus.Proofs.Lexicon.Overtaking
import PathCorpus.Arena.Survey
import PathCorpus.Proofs.Arena.Diagnosis
import PathCorpus.Proofs.Arena.Growing
import PathCorpus.Proofs.Arena.Edits
