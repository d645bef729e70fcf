import PathCorpus.Proofs.Corpus.Counts
import PathCorpus.Proofs.Lexicon.Rank

/-!
# What a cutoff leaves

The ranks that a cutoff is about are those of the three lexicons, but they can be told from the
stored samples alone: an id comes before another if it occurs more often there, or as often and
is smaller. So the lines of a corpus under a cutoff are determined by its samples. What they
leave is complete in itself. An id that stands on a line has its row in the dictionary saved
with the lines, and so have the ids in the row of a path.

Lines and dictionaries are filtered apart from each other. They agree because both look an id up in
one table of ranks, `Lexicon.Tallies.rankWithin_iff` and `Lexicon.lookup_dictionary`.

## Main statements

- `Lexicon.Tallies.rankWithin_iff`: ranks, from the ids that were given.
- `Lexicon.Tallies.exists_row`: the row of an id that is within a limit.
- `Corpus.Counted.lines_eq`: the lines under a cutoff.
- `Corpus.cutoff_ofEntries`: lines and dictionaries after a run.
-/

namespace PathCorpus

/-! ## §1: Ranks from occurrences -/

/-- How many of the ids in a list come before an id: those that occur more often, and those that
occur as often and are smaller. -/
def precedingIn (ids : List Nat) (a : Nat) : Nat :=
  ids.eraseDups.countP fun b => decide (Outranks (ids.count ·) id b a)

namespace Lexicon

variable {x : Lexicon} {ids : List Nat}

/-- The table of ranks knows how many ids come before an id. -/
theorem Tallies.rankWithin_iff (h : x.Tallies ids) {a : Nat} (ha : a ∈ ids) (limit : Limit) :
    rankWithin x.ranks limit a = true ↔ limit.Admits (precedingIn ids a + 1) := by
  obtain ⟨hpositive, hle⟩ := h.mem_iff.mp ha
  obtain ⟨place, rfl⟩ := Nat.exists_eq_add_one.mpr hpositive
  -- the ids in use are one more than their places
  have hcount : precedingIn ids (place + 1) =
      (List.range x.size).countP fun other => decide (Outranks x.countAt id other place) := by
    rw [precedingIn, h.firsts, List.range'_eq_map_range, List.countP_map]
    refine List.countP_congr fun other _ => ?_
    simp only [Function.comp_apply, decide_eq_true_eq, Outranks, h.countAt_eq, Nat.add_comm 1, id,
      Nat.add_lt_add_iff_right]
  rw [hcount, Lexicon.rankWithin_iff hle]

/-- An id that was given has a row in every dictionary whose limit it is within. -/
theorem Tallies.exists_row (h : x.Tallies ids) (hkind : '\n' ∉ x.kind.toList) {limit : Limit}
    {a : Nat} (ha : a ∈ ids) (hwithin : rankWithin x.ranks limit a = true) :
    ∃ v, (readDictionary (x.dictionary limit)).lookup (digits a) = some v := by
  obtain ⟨v, hv⟩ := h.exists_valueOf? ha
  exact ⟨v, by rw [lookup_dictionary hkind, if_pos hwithin, hv]⟩

end Lexicon

/-! ## §2: Lines -/

namespace Corpus

/-- A cutoff leaves a context if fewer ids come before each of its tokens than the limit
on tokens, and fewer before its path than the limit on paths. A rank is one more than
the number of ids before. -/
def Keeps (c : Corpus) (cutoff : Cutoff) (x : CodedContext) : Prop :=
  cutoff.tokens.Admits (precedingIn (tokenIds c.contexts) x.start + 1) ∧
    cutoff.tokens.Admits (precedingIn (tokenIds c.contexts) x.finish + 1) ∧
    cutoff.paths.Admits (precedingIn (c.contexts.map (·.path)) x.path + 1)

instance (c : Corpus) (cutoff : Cutoff) (x : CodedContext) : Decidable (c.Keeps cutoff x) :=
  inferInstanceAs (Decidable (_ ∧ _ ∧ _))

variable {c : Corpus} {keys : List (List Nat)} {x : CodedContext}

theorem start_mem_tokenIds {xs : List CodedContext} (h : x ∈ xs) : x.start ∈ tokenIds xs :=
  List.mem_flatMap.mpr ⟨x, h, by simp⟩

theorem finish_mem_tokenIds {xs : List CodedContext} (h : x ∈ xs) : x.finish ∈ tokenIds xs :=
  List.mem_flatMap.mpr ⟨x, h, by simp⟩

/-- The test of the lines is that of the occurrences. -/
theorem Counted.keeps_iff (h : c.Counted c.contexts keys) (cutoff : Cutoff) (hx : x ∈ c.contexts) :
    c.Keeps cutoff x ↔ rankWithin c.tokens.ranks cutoff.tokens x.start = true ∧
      rankWithin c.tokens.ranks cutoff.tokens x.finish = true ∧
      rankWithin c.paths.ranks cutoff.paths x.path = true := by
  rw [h.tokens.rankWithin_iff (start_mem_tokenIds hx),
    h.tokens.rankWithin_iff (finish_mem_tokenIds hx),
    h.paths.rankWithin_iff (List.mem_map_of_mem hx), Keeps]

theorem Counted.lines_eq (h : c.Counted c.contexts keys) (cutoff : Cutoff) :
    c.lines cutoff = c.samples.toList.map fun s => s.line fun x => decide (c.Keeps cutoff x) := by
  refine List.map_congr_left fun s hs => ?_
  have hkeep : ∀ x ∈ s.contexts, (rankWithin c.tokens.ranks cutoff.tokens x.start &&
      rankWithin c.tokens.ranks cutoff.tokens x.finish &&
      rankWithin c.paths.ranks cutoff.paths x.path) = decide (c.Keeps cutoff x) := by
    intro x hx
    have hmem : x ∈ c.contexts := List.mem_flatMap.mpr ⟨s, hs, hx⟩
    rw [Bool.eq_iff_iff, decide_eq_true_eq, h.keeps_iff cutoff hmem, Bool.and_eq_true,
      Bool.and_eq_true, and_assoc]
  rw [CodedSample.line, CodedSample.line, List.filter_congr hkeep]

/-! ## §3: Dictionaries -/

/-- The names of the columns are those of the corpus without samples. -/
theorem newline_notMem_kind (entries : List (String × List PathContext)) :
    '\n' ∉ (ofEntries entries).tokens.kind.toList ∧
      '\n' ∉ (ofEntries entries).nodeTypes.kind.toList ∧
      '\n' ∉ (ofEntries entries).paths.kind.toList := by
  have hgrows : empty.Grows (ofEntries entries) := empty.grows_addAll entries
  rw [hgrows.tokens.kind, hgrows.nodeTypes.kind, hgrows.paths.kind]
  decide

/-- **What a cutoff leaves is complete**: after a run there is a line for every entry, in order,
with the contexts that the cutoff leaves, in order. Of the ids on it those of tokens and paths
have their rows in the dictionaries that are saved with the lines, and every id in the row of a
path has a row in the dictionary of node types. -/
theorem cutoff_ofEntries (entries : List (String × List PathContext)) (cutoff : Cutoff)
    (packing : Packing) :
    let c := ofEntries entries
    let tokens := c.tokens.dictionary cutoff.tokens
    let nodeTypes := c.nodeTypes.dictionary .unlimited
    let paths := c.paths.dictionary cutoff.paths
    (c.files cutoff packing).map NamedFile.content = [tokens, nodeTypes, paths, c.text cutoff] ∧
      (c.samples.toList.map fun s => (s.label, s.contexts.length)) =
        (entries.map fun entry => (entry.1, entry.2.length)) ∧
      c.lines cutoff = (c.samples.toList.map fun s => s.label ++ String.join
        ((s.contexts.filter fun x => decide (c.Keeps cutoff x)).map fun x =>
          " " ++ toString x.start ++ "," ++ toString x.path ++ "," ++ toString x.finish)) ∧
      ∀ x ∈ c.contexts, c.Keeps cutoff x →
        (∃ v, (readDictionary tokens).lookup (digits x.start) = some v) ∧
        (∃ v, (readDictionary tokens).lookup (digits x.finish) = some v) ∧
        ∃ key ids, (readDictionary paths).lookup (digits x.path) = some key ∧
          readKey? key = some ids ∧
          ∀ a ∈ ids, ∃ v, (readDictionary nodeTypes).lookup (digits a) = some v := by
  intro c tokens nodeTypes paths
  obtain ⟨keys, h⟩ := exists_counted_ofEntries entries
  obtain ⟨htokens, hnodeTypes, hpaths⟩ := newline_notMem_kind entries
  refine ⟨rfl, empty.map_samples_addAll entries, h.lines_eq cutoff, fun x hx hkeeps => ?_⟩
  obtain ⟨hstart, hfinish, hpath⟩ := (h.keeps_iff cutoff hx).mp hkeeps
  obtain ⟨ids, hids, hkey⟩ := exists_mem_of_forall₂ h.keyed hx
  have hrow : (readDictionary paths).lookup (digits x.path) = some (keyOfIds ids) := by
    rw [Lexicon.lookup_dictionary hpaths, if_pos hpath, hkey]
  refine ⟨h.tokens.exists_row htokens (start_mem_tokenIds hx) hstart,
    h.tokens.exists_row htokens (finish_mem_tokenIds hx) hfinish, keyOfIds ids, ids, hrow,
    readKey?_keyOfIds ids, fun a ha => ?_⟩
  -- labels are under no limit, so every id in a key that was observed has its row
  have hmem : a ∈ keys.flatten := List.mem_flatten.mpr ⟨ids, hids, ha⟩
  obtain ⟨v, hv⟩ := h.nodeTypes.exists_valueOf? hmem
  exact ⟨v, Lexicon.lookup_readDictionary hnodeTypes hv⟩

/-- Two tokens that occur equally often, of which the limit leaves the one with the smaller id,
and a line that is left empty. -/
theorem cutoff_ofEntries_tied :
    let p : PathShape := ⟨["A"], "R", ["B"]⟩
    let q : PathShape := ⟨[], "R", ["B"]⟩
    let c := ofEntries [("x", [⟨"u", p, "t"⟩, ⟨"t", q, "v"⟩, ⟨"t", p, "u"⟩]),
      ("y", [⟨"v", p, "w"⟩])]
    let cutoff : Cutoff := ⟨.atMost 2, .atMost 1⟩
    c.lines cutoff = ["x 1,1,2 2,1,1", "y"] ∧ ⟨1, 1, 2⟩ ∈ c.contexts ∧ c.Keeps cutoff ⟨1, 1, 2⟩ ∧
      ∃ v, (readDictionary (c.tokens.dictionary cutoff.tokens)).lookup (digits 2) = some v := by
  intro p q c cutoff
  obtain ⟨-, -, hlines, hrows⟩ := cutoff_ofEntries
    [("x", [⟨"u", p, "t"⟩, ⟨"t", q, "v"⟩, ⟨"t", p, "u"⟩]), ("y", [⟨"v", p, "w"⟩])] cutoff .plain
  have hmem : ⟨1, 1, 2⟩ ∈ c.contexts := by decide +kernel
  have hkeeps : c.Keeps cutoff ⟨1, 1, 2⟩ := by decide +kernel
  refine ⟨hlines.trans ?_, hmem, hkeeps, (hrows _ hmem hkeeps).2.1⟩
  decide +kernel

end Corpus

end PathCorpus
