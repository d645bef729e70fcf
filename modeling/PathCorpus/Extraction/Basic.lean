import PathCorpus.Corpus.Files
import PathCorpus.Extraction.Config
import PathCorpus.Extraction.Report

/-!
# Extraction

An extraction takes labelled trees, searches each for its path contexts, and keeps them in its
corpus. A sample at fault is rejected: it leaves an entry in the report and nothing else. Samples
are numbered as they are offered, kept or not.

Samples come one at a time, as trees or as texts, or as a list of what was read from a file. A
list can be gone through in two ways. One takes each sample in turn and keeps the contexts as its
search comes to them. The other runs the searches of all samples at once, each to its end, and keeps
what they found in the order of the list.
-/

namespace PathCorpus

/-- A valid configuration, and all that came of the samples offered so far. -/
structure Extraction where
  config : Config
  valid : config.Valid
  corpus : Corpus := .empty
  report : Report := {}
  /-- The number of samples offered. -/
  offered : Nat := 0

namespace Extraction

/-- The extraction that was offered nothing. -/
def new (config : Config) : Except NonPositive Extraction :=
  match h : config.fault? with
  | some e => .error e
  | none => .ok { config, valid := Config.fault?_eq_none.1 h }

/-! ## §1: Keeping and rejecting -/

/-- Counts a sample that was added to the corpus: the number of its contexts, and the extraction
after it. -/
def count (e : Extraction) (added : CodedSample × Corpus) : Nat × Extraction :=
  let (sample, corpus) := added
  let count := sample.contexts.length
  let report :=
    { e.report with
      processed := e.report.processed + 1
      -- a sample without contexts still has its line
      empty := if count = 0 then e.report.empty + 1 else e.report.empty }
  (count, { e with corpus, report, offered := e.offered + 1 })

/-- Keeps the contexts of a sample. -/
def keep (e : Extraction) (label : String) (contexts : List PathContext) : Nat × Extraction :=
  e.count (e.corpus.add label contexts)

/-- Keeps the contexts of a sample as its search comes to them. -/
def keepFound (e : Extraction) (label : String) (search : Search) : Nat × Extraction :=
  e.count (e.corpus.addFound label e.config.maxPathContexts search)

/-- Rejects a sample. -/
def reject (e : Extraction) (label? : Option String) (fault : Fault) : Extraction :=
  let entry : Skipped := { index := e.offered, label?, fault }
  let report := { e.report with skipped := e.report.skipped.push entry }
  { e with report, offered := e.offered + 1 }

/-- The search of a labelled tree that a configuration asks for. The label is judged first. -/
def searchOf (config : Config) (valid : config.Valid) (label : String) (tree : Arena) :
    Except Fault Search :=
  if isLabel label then
    match tree.search (config.bounds valid) with
    | .ok search => .ok search
    | .error d => .error (.noTree d)
  else .error (.badLabel label)

/-! ## §2: One sample at a time -/

/-- Offers a labelled tree: the number of contexts kept, or why it was rejected. -/
def offer (e : Extraction) (label : String) (tree : Arena) : Except Fault Nat × Extraction :=
  match searchOf e.config e.valid label tree with
  | .ok search =>
    let (count, e) := e.keepFound label search
    (.ok count, e)
  | .error fault => (.error fault, e.reject (some label) fault)

/-- Offers a label and the text of a tree. The text is judged before the label. -/
def offerText (e : Extraction) (label text : String) : Except Fault Nat × Extraction :=
  match SExpr.parseArena text with
  | .ok tree => e.offer label tree
  | .error refusal => (.error (.refused refusal), e.reject (some label) (.refused refusal))

/-! ## §3: A list of samples -/

/-- Offers what was read from a line, and forgets the answer. -/
def offerRead (e : Extraction) : Except LineFault Sample → Extraction
  | .ok s => (e.offer s.label s.tree).2
  | .error fault => e.reject fault.label? (.unread fault)

/-- Offers what was read, one after another. -/
def offerAll (e : Extraction) (samples : List (Except LineFault Sample)) : Extraction :=
  samples.foldl offerRead e

/-- What the search of one sample came to. -/
inductive Finding where
  | found (label : String) (contexts : List PathContext)
  | failed (label? : Option String) (fault : Fault)

/-- Searches one sample. The search knows nothing of the corpus. -/
def Finding.of (config : Config) (valid : config.Valid) : Except LineFault Sample → Finding
  | .ok s =>
    match searchOf config valid s.label s.tree with
    | .ok search =>
      .found s.label ((search.upTo config.maxPathContexts).filterMap (·.context? s.tree))
    | .error fault => .failed (some s.label) fault
  | .error fault => .failed fault.label? (.unread fault)

/-- Keeps what a search found, or rejects the sample. -/
def record (e : Extraction) : Finding → Extraction
  | .found label contexts => (e.keep label contexts).2
  | .failed label? fault => e.reject label? fault

/-- Offers what was read, all searches side by side. -/
def offerAllAtOnce (e : Extraction) (samples : List (Except LineFault Sample)) : Extraction :=
  let searches := samples.map fun s => Task.spawn fun _ => Finding.of e.config e.valid s
  -- each result is waited for in its turn, so ids come out in the order of the list
  searches.foldl (fun e search => e.record search.get) e

/-! ## §4: Output -/

/-- The lines of the corpus under the configured cutoff. -/
def lines (e : Extraction) : List String := e.corpus.lines e.config.cutoff

/-- Saves the corpus under the configured cutoff. -/
def save (e : Extraction) (d : Directory) (packing : Packing) : Saving :=
  e.corpus.save d e.config.cutoff packing

end Extraction

end PathCorpus
