import PathCorpus.LeafPath.Search
import PathCorpus.Lexicon.Basic

/-!
# Corpora

A corpus holds labelled path contexts in coded form: a token is replaced by its id in a lexicon of
tokens, and a path by its id in a lexicon of paths. The text under which a path is entered there is
its *key*, the ids of its directed labels in a third lexicon, separated by spaces. So the three
lexicons together give back what was coded.

The contexts of a tree come as a list, or from a search that goes on only as each of them is coded.
Nothing is left out here. Limits on ranks apply only when a corpus is written.
-/

namespace PathCorpus

/-- A path context by ids. -/
structure CodedContext where
  start : Nat
  path : Nat
  finish : Nat
  deriving DecidableEq, Repr

/-- The coded path contexts of one labelled tree. -/
structure CodedSample where
  label : String
  contexts : List CodedContext
  deriving DecidableEq, Repr

/-- Three lexicons, and the samples coded with them in the order in which they came. -/
structure Corpus where
  tokens : Lexicon
  nodeTypes : Lexicon
  paths : Lexicon
  samples : Array CodedSample

namespace Corpus

/-- The corpus without samples. -/
def empty : Corpus where
  tokens := .empty "token"
  nodeTypes := .empty "node_type"
  paths := .empty "path"
  samples := #[]

/-- The key of a path whose oriented labels have the given ids. -/
def keyOfIds (ids : List Nat) : String := " ".intercalate (ids.map toString)

/-- Codes one context. Its labels are observed first, in the order of the path, then the path, then
the tokens at its start and at its end. -/
def code (c : Corpus) (context : PathContext) : CodedContext × Corpus :=
  let (typeIds, nodeTypes) := c.nodeTypes.observeAll context.shape.directedLabels
  let (path, paths) := c.paths.observe (keyOfIds typeIds)
  let (start, tokens) := c.tokens.observe context.startToken
  let (finish, tokens) := tokens.observe context.finishToken
  ({ start, path, finish }, { c with tokens, nodeTypes, paths })

/-- Codes contexts one after another, and appends them to those coded before. -/
def codeInto (coded : Array CodedContext) (c : Corpus) :
    List PathContext → Array CodedContext × Corpus
  | [] => (coded, c)
  | context :: rest =>
    let (x, c) := c.code context
    codeInto (coded.push x) c rest

/-- Codes contexts one after another. -/
def codeAll (c : Corpus) (contexts : List PathContext) : List CodedContext × Corpus :=
  let (coded, c) := codeInto #[] c contexts
  (coded.toList, c)

/-- Codes the contexts of the next paths of a search, at most `n` of them, and appends them to those
coded before. Each one is coded before the path after it is looked for. -/
def codeFound (coded : Array CodedContext) (c : Corpus) :
    (n : Nat) → Search → Array CodedContext × Corpus
  | 0, _ => (coded, c)
  | n + 1, s =>
    match s.next with
    | (none, _) => (coded, c)
    | (some p, s) =>
      match p.context? s.tree with
      | some context =>
        let (x, c) := c.code context
        codeFound (coded.push x) c n s
      | none => codeFound coded c n s

/-- Codes the contexts of a labelled tree and keeps them as the last sample. -/
def add (c : Corpus) (label : String) (contexts : List PathContext) : CodedSample × Corpus :=
  let (coded, c) := c.codeAll contexts
  let sample : CodedSample := { label, contexts := coded }
  (sample, { c with samples := c.samples.push sample })

/-- Codes the contexts that a search of a labelled tree comes to, as many as the limit lets through,
and keeps them as the last sample. -/
def addFound (c : Corpus) (label : String) (limit : Limit) (s : Search) : CodedSample × Corpus :=
  let (coded, c) := codeFound #[] c (s.calls limit) s
  let sample : CodedSample := { label, contexts := coded.toList }
  (sample, { c with samples := c.samples.push sample })

end Corpus

end PathCorpus
