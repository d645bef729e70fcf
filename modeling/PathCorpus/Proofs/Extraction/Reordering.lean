import PathCorpus.Proofs.Corpus.Reordering
import PathCorpus.Proofs.Extraction.Removal

/-!
# The order of units decides ids and nothing else

What a unit comes to can be told from the unit alone: an entry of the corpus, or a fault. So a
run over the same units in another order adds the same entries in another order, and skips as
many units. The ids that it gives may all be different, and with them the keys of paths. But
counts are those of the texts and shapes themselves, ranks compare as counts do where these
differ, and what is stored reads back as the entries of the units, in the order of the units.

## Main statements

- `Extraction.foldl_record_eq`: what a run makes of the findings of its units.
- `Extraction.run_perm`: two runs over the same units in different order.
-/

namespace PathCorpus

open Extraction

/-! ## §1: Entries of units -/

/-- The entry that is added for a finding, if it did not fail. -/
def Extraction.Finding.added? : Finding → Option (String × List PathContext)
  | .found label contexts => some (label, contexts)
  | .failed _ _ => none

/-- The entry of a unit, if nothing is wrong with it. -/
def Candidate.added? (config : Config) (valid : config.Valid) (c : Candidate) :
    Option (String × List PathContext) :=
  (c.finding config valid).added?

/-- The entry of a unit whose labelled tree is accepted. -/
theorem Candidate.added?_of_isAccepted {config : Config} (valid : config.Valid) {c : Candidate}
    {s : Sample} (hs : c.sample = .ok s) (h : s.IsAccepted) :
    c.added? config valid = s.labelledContexts? config valid := by
  obtain ⟨search, hsearch, hentry⟩ := s.exists_entry valid h
  simp only [hentry, Candidate.added?, Candidate.finding, hs, Finding.of, hsearch, Finding.added?,
    Search.contextsUpTo, tree_of_searchOf hsearch]

namespace Extraction

variable {e e' : Extraction}

/-- Keeping a sample adds its entry, and counts it. -/
theorem keep_eq (e : Extraction) (label : String) (contexts : List PathContext) :
    (e.keep label contexts).2.corpus = (e.corpus.add label contexts).2 ∧
      (e.keep label contexts).2.report =
        { e.report with
          processed := e.report.processed + 1
          empty := e.report.empty + if contexts.isEmpty then 1 else 0 } := by
  obtain ⟨xs, c, hadd, -, -, hcodes⟩ := e.corpus.exists_add label contexts
  refine ⟨rfl, ?_⟩
  rw [keep, hadd, count]
  -- as many contexts are coded as there are
  have hnil : xs.length = 0 ↔ contexts.isEmpty = true := by
    rw [hcodes.length_eq, List.isEmpty_iff_length_eq_zero]
  by_cases hempty : contexts.isEmpty = true
  · simp [hnil, hempty]
  · simp [hnil, hempty]

/-- A run adds the entries of its findings in order and skips those that failed. -/
theorem foldl_record_eq (e : Extraction) (findings : List Finding) :
    let entries := findings.filterMap Finding.added?
    let after := findings.foldl record e
    after.corpus = e.corpus.addAll entries ∧
      after.report.processed = e.report.processed + entries.length ∧
      after.report.empty = e.report.empty + entries.countP (·.2.isEmpty) ∧
      after.report.skipped.size = e.report.skipped.size + findings.countP (·.added?.isNone) := by
  induction findings generalizing e with
  | nil => exact ⟨rfl, rfl, rfl, rfl⟩
  | cons f findings ih =>
    -- the other findings are recorded on top of whatever the first one has come to
    obtain ⟨hcorpus, hprocessed, hempty, hskipped⟩ := ih (e.record f)
    cases f with
    | found label contexts =>
      obtain ⟨hcorpus', hreport'⟩ := e.keep_eq label contexts
      simp only [record, hcorpus', hreport'] at hcorpus hprocessed hempty hskipped
      simp only [List.foldl_cons, List.filterMap_cons, Finding.added?, List.countP_cons,
        List.length_cons, record, hcorpus, hprocessed, hempty, hskipped]
      refine ⟨rfl, by omega, by omega, by simp⟩
    | failed label? fault =>
      simp only [record, reject] at hcorpus hprocessed hempty hskipped
      simp only [List.foldl_cons, List.filterMap_cons, Finding.added?, List.countP_cons, record,
        reject, hcorpus, hprocessed, hempty, hskipped]
      refine ⟨trivial, trivial, trivial, ?_⟩
      simp
      omega

/-! ## §2: Two orders -/

/-- Two extractions that took the same units: the counts of their reports are equal,
their lexicons count texts and shapes alike, and what they store reads back as the same
entries, maybe in another order. -/
structure SameUpToIds (e e' : Extraction) : Prop where
  processed : e.report.processed = e'.report.processed
  empty : e.report.empty = e'.report.empty
  skipped : e.report.skipped.size = e'.report.skipped.size
  tokens : e.corpus.tokens.CountsAlike e.corpus.tokens.idOf?
    e'.corpus.tokens e'.corpus.tokens.idOf?
  nodeTypes : e.corpus.nodeTypes.CountsAlike e.corpus.nodeTypes.idOf?
    e'.corpus.nodeTypes e'.corpus.nodeTypes.idOf?
  paths : e.corpus.paths.CountsAlike e.corpus.shapeId? e'.corpus.paths e'.corpus.shapeId?
  stored : ∃ entries entries',
    e.corpus.entries? = some entries ∧ e'.corpus.entries? = some entries' ∧ entries.Perm entries'

theorem exists_valid_of_new {config : Config} (h : Extraction.new config = .ok e) :
    ∃ valid : config.Valid, e = { config, valid } := by
  unfold Extraction.new at h
  split at h
  next => cases h
  next hfault => exact ⟨Config.fault?_eq_none.mp hfault, (Except.ok.inj h).symm⟩

/-- After a run of a new extraction all depends on the list of units alone. -/
theorem run_new_eq {config : Config} (valid : config.Valid) (offers : List Offer) :
    let units := offers.flatMap Offer.candidates
    let entries := units.filterMap (Candidate.added? config valid)
    let after := Extraction.run { config, valid } offers
    after.corpus = Corpus.ofEntries entries ∧ after.report.processed = entries.length ∧
      after.report.empty = entries.countP (·.2.isEmpty) ∧
      after.report.skipped.size = units.countP fun c => (c.added? config valid).isNone := by
  intro units entries after
  obtain ⟨hcorpus, hprocessed, hempty, hskipped⟩ :=
    foldl_record_eq { config, valid } (units.map (Candidate.finding config valid))
  have hrun : after = (units.map (Candidate.finding config valid)).foldl record { config, valid } :=
    run_eq valid rfl offers
  rw [← hrun, List.filterMap_map] at hcorpus hprocessed hempty
  rw [← hrun, List.countP_map] at hskipped
  refine ⟨hcorpus, ?_, ?_, ?_⟩
  · rw [hprocessed, Nat.zero_add]
    rfl
  · rw [hempty, Nat.zero_add]
    rfl
  · rw [hskipped, Array.size_empty, Nat.zero_add]
    rfl

/-- **The order of units decides ids and nothing else**: after two runs of new extractions over
the same units in different order the counts of the reports are equal. Every token, every label
with a direction and every shape was counted equally often, and of two of these that were
counted unequally often both runs rank the same one first. What a run has stored reads back as
the entries of its units, in the order of its units. -/
theorem run_perm {config : Config} (hnew : Extraction.new config = .ok e)
    {offers offers' : List Offer}
    (hperm : (offers.flatMap Offer.candidates).Perm (offers'.flatMap Offer.candidates)) :
    (e.run offers).SameUpToIds (e.run offers') ∧
      (e.run offers).corpus.entries? =
        some ((offers.flatMap Offer.candidates).filterMap (Candidate.added? e.config e.valid)) ∧
      (e.run offers').corpus.entries? =
        some ((offers'.flatMap Offer.candidates).filterMap
          (Candidate.added? e.config e.valid)) := by
  obtain ⟨valid, rfl⟩ := exists_valid_of_new hnew
  obtain ⟨hcorpus, hprocessed, hempty, hskipped⟩ := run_new_eq valid offers
  obtain ⟨hcorpus', hprocessed', hempty', hskipped'⟩ := run_new_eq valid offers'
  -- what a unit adds does not depend on the units before it, so the entries are permuted along
  have hentries := hperm.filterMap (Candidate.added? config valid)
  obtain ⟨htokens, hnodeTypes, hpaths⟩ := Corpus.countsAlike_ofEntries hentries
  have hread := Corpus.entries?_ofEntries
    ((offers.flatMap Offer.candidates).filterMap (Candidate.added? config valid))
  have hread' := Corpus.entries?_ofEntries
    ((offers'.flatMap Offer.candidates).filterMap (Candidate.added? config valid))
  rw [← hcorpus] at htokens hnodeTypes hpaths hread
  rw [← hcorpus'] at htokens hnodeTypes hpaths hread'
  refine ⟨⟨?_, ?_, ?_, htokens, hnodeTypes, hpaths, _, _, hread, hread', hentries⟩, hread, hread'⟩
  · rw [hprocessed, hprocessed', hentries.length_eq]
  · rw [hempty, hempty', hentries.countP_eq]
  · rw [hskipped, hskipped', hperm.countP_eq]

/-- Two trees that share a token and a text at fault, forwards and backwards. -/
theorem run_perm_backwards :
    let t := Edit.build [.addNode "R" none, .addChild 0 "A" (some "a"), .addChild 0 "B" (some "b")]
    let u := Edit.build [.addNode "R" none, .addChild 0 "A" (some "b"), .addChild 0 "A" (some "c")]
    let entryX : String × List PathContext := ("x", [⟨"a", ⟨["A"], "R", ["B"]⟩, "b"⟩])
    let entryY : String × List PathContext := ("y", [⟨"b", ⟨["A"], "R", ["A"]⟩, "c"⟩])
    let offers : List Offer := [.text "x" "(", .tree "x" t, .batch (.inTurn [.ok ⟨"y", u⟩])]
    let offers' : List Offer := [.batch (.atOnce [.ok ⟨"y", u⟩]), .tree "x" t, .text "x" "("]
    ∃ e, Extraction.new .standard = .ok e ∧
      (offers.flatMap Offer.candidates).Perm (offers'.flatMap Offer.candidates) ∧
      (e.run offers).SameUpToIds (e.run offers') ∧
      (e.run offers).corpus.entries? = some [entryX, entryY] ∧
      (e.run offers').corpus.entries? = some [entryY, entryX] ∧
      (e.run offers).corpus.tokens.idOf? "a" = some 1 ∧
      (e.run offers').corpus.tokens.idOf? "a" = some 3 := by
  intro t u entryX entryY offers offers'
  have hperm : (offers.flatMap Offer.candidates).Perm (offers'.flatMap Offer.candidates) :=
    List.reverse_perm (α := Candidate) [.read (.ok ⟨"y", u⟩), .tree "x" t, .text "x" "("]
  have hx : (Candidate.tree "x" t).added? .standard Config.valid_standard = some entryX := by
    rw [Candidate.added?_of_isAccepted _ rfl (by decide +kernel)]
    rw [Sample.labelledContexts?_eq _ (by decide +kernel)]
    decide +kernel
  have hy : (Candidate.read (.ok ⟨"y", u⟩)).added? .standard Config.valid_standard =
      some entryY := by
    rw [Candidate.added?_of_isAccepted _ rfl (by decide +kernel)]
    rw [Sample.labelledContexts?_eq _ (by decide +kernel)]
    decide +kernel
  have hz : (Candidate.text "x" "(").added? .standard Config.valid_standard = none := by
    decide +kernel
  have hentries : (offers.flatMap Offer.candidates).filterMap
      (Candidate.added? .standard Config.valid_standard) = [entryX, entryY] := by
    simp [offers, Offer.candidates, Batch.samples, hx, hy, hz]
  have hentries' : (offers'.flatMap Offer.candidates).filterMap
      (Candidate.added? .standard Config.valid_standard) = [entryY, entryX] := by
    simp [offers', Offer.candidates, Batch.samples, hx, hy, hz]
  obtain ⟨hsame, hread, hread'⟩ := run_perm (new_eq Config.valid_standard) hperm
  refine ⟨_, new_eq Config.valid_standard, hperm, hsame, by rw [hread, hentries],
    by rw [hread', hentries'], ?_, ?_⟩
  · rw [(run_new_eq Config.valid_standard offers).1, hentries]
    decide +kernel
  · rw [(run_new_eq Config.valid_standard offers').1, hentries']
    decide +kernel

end Extraction

end PathCorpus
