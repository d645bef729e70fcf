import PathCorpus.Extraction.Basic
import PathCorpus.Proofs.LeafPath.Exact

/-!
# Samples one by one and all at once

There are two ways to go through a list of samples. In the one a search goes on only as its contexts
are coded, and the report is kept along the way. In the other all searches have run to their end
before the first context is coded. They leave the same extraction, because a search knows nothing
of the corpus: it gives the same paths whenever its calls come.

## Main statements

- `Corpus.addFound_eq_add`: coding along with a search is coding what the search finds.
- `Extraction.offerAllAtOnce_eq_offerAll`: the two ways agree, on any list, and mixed over the
  batches that a list is cut into.
-/

namespace PathCorpus

/-! ## §1: Coding along with a search -/

namespace Search

variable (s : Search)

theorem take_succ_of_some {p : LeafPath} {s' : Search} (h : s.next = (some p, s')) (n : Nat) :
    s.take (n + 1) = p :: s'.take n := by
  -- a call gives the head of what is left, and leaves the tail
  obtain ⟨hhead, htail⟩ := s.next_eq
  rw [h] at hhead htail
  rw [take_eq, take_eq]
  cases hleft : s.left with
  | nil => simp [hleft] at hhead
  | cons q rest =>
    rw [hleft, List.head?_cons, Option.some.injEq] at hhead
    rw [hleft, List.tail_cons] at htail
    rw [htail, hhead, List.take_succ_cons]

theorem take_of_none {s' : Search} (h : s.next = (none, s')) (n : Nat) : s.take n = [] := by
  have hnil : s.left = [] := by
    simpa [h] using s.next_eq.1.symm
  rw [take_eq, hnil, List.take_nil]

theorem upTo_eq_take_calls (limit : Limit) : s.upTo limit = s.take (s.calls limit) := by
  cases limit <;> rfl

/-- The contexts of the paths up to a limit. -/
def contextsUpTo (limit : Limit) : List PathContext :=
  (s.upTo limit).filterMap (·.context? s.tree)

end Search

namespace Corpus

theorem codeFound_eq_codeInto (coded : Array CodedContext) (c : Corpus) (n : Nat) (s : Search) :
    codeFound coded c n s = codeInto coded c ((s.take n).filterMap (·.context? s.tree)) := by
  induction n generalizing coded c s with
  | zero => rfl
  | succ n ih =>
    unfold codeFound
    split
    next s' hnext => rw [s.take_of_none hnext, List.filterMap_nil, codeInto]
    next p s' hnext =>
      -- a call changes nothing but the leaves that are left
      have htree : s'.tree = s.tree := by
        rw [show s' = s.next.2 by rw [hnext]]
        rfl
      rw [s.take_succ_of_some hnext, List.filterMap_cons, htree]
      split
      next context hcontext =>
        simp only [hcontext, codeInto]
        rw [ih, htree]
      next hnone =>
        simp only [hnone]
        rw [ih, htree]

theorem addFound_eq_add (c : Corpus) (label : String) (limit : Limit) (s : Search) :
    c.addFound label limit s = c.add label (s.contextsUpTo limit) := by
  simp only [addFound, add, codeAll, codeFound_eq_codeInto, Search.contextsUpTo,
    Search.upTo_eq_take_calls]

end Corpus

/-! ## §2: One sample -/

namespace Extraction

theorem keepFound_eq_keep (e : Extraction) (label : String) (s : Search) :
    e.keepFound label s = e.keep label (s.contextsUpTo e.config.maxPathContexts) := by
  rw [keepFound, keep, Corpus.addFound_eq_add]

/-- A search that a configuration asks for goes over the tree that it is asked for. -/
theorem tree_of_searchOf {config : Config} {valid : config.Valid} {label : String} {tree : Arena}
    {s : Search} (h : searchOf config valid label tree = .ok s) : s.tree = tree := by
  unfold searchOf Arena.search at h
  split at h
  · cases hcheck : tree.check with
    | error d => simp [hcheck] at h
    | ok u =>
      simp only [hcheck, Except.ok.injEq] at h
      rw [← h]
      rfl
  · simp at h

/-- Offering a sample is recording what its search has found. -/
theorem offerRead_eq_record (e : Extraction) (sample : Except LineFault Sample) :
    e.offerRead sample = e.record (.of e.config e.valid sample) := by
  cases sample with
  | error fault => rfl
  | ok sample =>
    simp only [offerRead, offer, Finding.of]
    cases hsearch : searchOf e.config e.valid sample.label sample.tree with
    | error fault => rfl
    | ok s =>
      simp only [record, keepFound_eq_keep, Search.contextsUpTo, tree_of_searchOf hsearch]

@[simp] theorem config_record (e : Extraction) (f : Finding) : (e.record f).config = e.config := by
  cases f <;> rfl

/-! ## §3: Lists of samples -/

theorem offerAll_eq_foldl_record {config : Config} (valid : config.Valid) (e : Extraction)
    (hconfig : e.config = config) (samples : List (Except LineFault Sample)) :
    e.offerAll samples = (samples.map (Finding.of config valid)).foldl record e := by
  induction samples generalizing e with
  | nil => rfl
  | cons sample samples ih =>
    subst hconfig
    rw [List.map_cons, List.foldl_cons, ← offerRead_eq_record]
    -- the configuration that the searches were started with is still in force
    exact ih _ (by rw [offerRead_eq_record, config_record])

private theorem offerAllAtOnce_eq (e : Extraction) (samples : List (Except LineFault Sample)) :
    e.offerAllAtOnce samples = e.offerAll samples := by
  rw [offerAll_eq_foldl_record e.valid e rfl]
  simp only [offerAllAtOnce, List.foldl_map]
  rfl

/-- A list of samples and the way to go through it. -/
inductive Batch where
  | inTurn (samples : List (Except LineFault Sample))
  | atOnce (samples : List (Except LineFault Sample))

namespace Batch

/-- The samples of a batch. -/
def samples : Batch → List (Except LineFault Sample)
  | inTurn samples => samples
  | atOnce samples => samples

end Batch

/-- Goes through a batch in its way. -/
def offerBatch (e : Extraction) : Batch → Extraction
  | .inTurn samples => e.offerAll samples
  | .atOnce samples => e.offerAllAtOnce samples

theorem offerBatch_eq_offerAll (e : Extraction) (b : Batch) :
    e.offerBatch b = e.offerAll b.samples := by
  cases b with
  | inTurn samples => rfl
  | atOnce samples => exact offerAllAtOnce_eq e samples

theorem offerAll_append (e : Extraction) (xs ys : List (Except LineFault Sample)) :
    e.offerAll (xs ++ ys) = (e.offerAll xs).offerAll ys :=
  List.foldl_append

/-- **At once is in turn**: going through samples all at once leaves the extraction that going
through them one by one leaves, and so does any cut into batches, each gone through either way. -/
theorem offerAllAtOnce_eq_offerAll (e : Extraction) :
    (∀ samples, e.offerAllAtOnce samples = e.offerAll samples) ∧
      ∀ batches : List Batch,
        batches.foldl offerBatch e = e.offerAll (batches.flatMap Batch.samples) := by
  refine ⟨offerAllAtOnce_eq e, fun batches => ?_⟩
  induction batches generalizing e with
  | nil => rfl
  | cons b batches ih =>
    rw [List.foldl_cons, ih, offerBatch_eq_offerAll, List.flatMap_cons, offerAll_append]

end Extraction

end PathCorpus
