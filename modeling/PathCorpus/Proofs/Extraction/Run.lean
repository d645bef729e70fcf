import PathCorpus.Arena.Edit
import PathCorpus.Proofs.Corpus.Decoder
import PathCorpus.Proofs.Extraction.Batch

/-!
# Runs

A run offers an extraction trees, texts and lists of samples, in any order and each list in either
way. A sample is *accepted* if its label is one word and its tree is one, and then it has an
*entry*: its label and the contexts of the first paths that a search of its tree gives. The corpus
after a run stores the entries of the accepted samples in the order in which they were offered, so
the texts of the corpus give exactly these back.

## Main statements

- `Sample.exists_entry`: an accepted sample has an entry, and this is what is added for it.
- `Extraction.Holds.run`: what the corpus stores after a run.
- `Extraction.decode?_run`: the texts written after a run, decoded.
-/

namespace PathCorpus

/-! ## §1: Entries -/

/-- The contexts of some paths, if no look-up fails. -/
def Arena.contextsAlong? (t : Arena) (paths : List LeafPath) : Option (List PathContext) :=
  paths.mapM fun p => p.context? t

namespace Sample

/-- The label is one word and the tree is a tree. -/
def IsAccepted (s : Sample) : Prop := isLabel s.label = true ∧ s.tree.check = .ok ()

instance (s : Sample) : Decidable s.IsAccepted := inferInstanceAs (Decidable (_ ∧ _))

/-- The label, and the contexts of the first paths of a search of the tree. -/
def labelledContexts? (config : Config) (valid : config.Valid) (s : Sample) :
    Option (String × List PathContext) :=
  match s.tree.search (config.bounds valid) with
  | .ok search =>
    (s.tree.contextsAlong? (config.maxPathContexts.take search.toList)).map (s.label, ·)
  | .error _ => none

/-- The entries of the accepted ones of some samples. -/
def entries? (config : Config) (valid : config.Valid) (samples : List Sample) :
    Option (List (String × List PathContext)) :=
  (samples.filter fun s => decide s.IsAccepted).mapM (labelledContexts? config valid)

end Sample

private theorem mapM_eq_filterMap {α β : Type} {f : α → Option β} {as : List α}
    (h : ∀ a ∈ as, ∃ b, f a = some b) : as.mapM f = some (as.filterMap f) := by
  induction as with
  | nil => rfl
  | cons a as ih =>
    rw [List.forall_mem_cons] at h
    obtain ⟨b, hb⟩ := h.1
    simp [List.mapM_cons, hb, ih h.2]

/-- An accepted sample is searched, and the contexts that its search comes to are those of its
entry: none is lost for a failed look-up. -/
theorem Sample.exists_entry {config : Config} (valid : config.Valid) {s : Sample}
    (h : s.IsAccepted) :
    ∃ search, Extraction.searchOf config valid s.label s.tree = .ok search ∧
      s.labelledContexts? config valid =
        some (s.label, search.contextsUpTo config.maxPathContexts) := by
  obtain ⟨hlabel, hcheck⟩ := h
  obtain ⟨root, below, hrooted, _⟩ := Arena.check_eq_ok_iff.mp hcheck
  obtain ⟨search, hsearch, htree, _, hleft⟩ := hrooted.left_search hcheck (config.bounds valid)
  refine ⟨search, by simp [Extraction.searchOf, hlabel, hsearch], ?_⟩
  -- the paths are those of the description, whose nodes all exist
  have hcontexts : ∀ p ∈ config.maxPathContexts.take search.toList,
      ∃ context, p.context? s.tree = some context := by
    intro p hp
    have hmem := Limit.mem_of_mem_take hp
    rw [search.toList_eq, hleft] at hmem
    exact hrooted.exists_context? hmem
  simp only [Sample.labelledContexts?, Arena.contextsAlong?, hsearch,
    mapM_eq_filterMap hcontexts, Option.map_some, Search.contextsUpTo, search.upTo_eq, htree]

/-- The entry in terms of the description of the paths, without a search. -/
theorem Sample.labelledContexts?_eq {config : Config} (valid : config.Valid) {s : Sample}
    (h : s.tree.check = .ok ()) :
    s.labelledContexts? config valid =
      (s.tree.contextsAlong? (config.maxPathContexts.take
        (s.tree.pathsWithin (config.bounds valid)))).map (s.label, ·) := by
  obtain ⟨root, below, hrooted, _⟩ := Arena.check_eq_ok_iff.mp h
  obtain ⟨search, hsearch, _, _, hleft⟩ := hrooted.left_search h (config.bounds valid)
  simp only [Sample.labelledContexts?, hsearch, search.toList_eq, hleft]

theorem exists_fault_of_not_isAccepted {config : Config} (valid : config.Valid) {s : Sample}
    (h : ¬ s.IsAccepted) :
    ∃ fault, Extraction.searchOf config valid s.label s.tree = .error fault := by
  unfold Extraction.searchOf
  split
  case isFalse => exact ⟨_, rfl⟩
  case isTrue hlabel =>
    cases hcheck : s.tree.check with
    | error d => exact ⟨.noTree d, by simp [Arena.search, hcheck]⟩
    | ok _ => exact absurd ⟨hlabel, hcheck⟩ h

/-! ## §2: Offers -/

/-- What is offered with one call. -/
inductive Offer where
  | tree (label : String) (tree : Arena)
  | text (label text : String)
  | batch (samples : Extraction.Batch)

/-- The labelled trees of a call, in order. Texts and lines that give no tree have none. -/
def Offer.samples : Offer → List Sample
  | .tree label t => [{ label, tree := t }]
  | .text label s =>
    match SExpr.parseArena s with
    | .ok t => [{ label, tree := t }]
    | .error _ => []
  | .batch b => b.samples.filterMap Except.toOption

namespace Extraction

/-- The extraction after a call. -/
def perform (e : Extraction) : Offer → Extraction
  | .tree label tree => (e.offer label tree).2
  | .text label text => (e.offerText label text).2
  | .batch b => e.offerBatch b

/-- The extraction after several calls. -/
def run (e : Extraction) (offers : List Offer) : Extraction := offers.foldl perform e

/-! ## §3: What a run stores -/

/-- The extraction has a configuration, and its corpus stores the entries of some samples. -/
structure Holds (e : Extraction) (config : Config) (valid : config.Valid) (samples : List Sample) :
    Prop where
  config_eq : e.config = config
  stores : ∃ entries, Sample.entries? config valid samples = some entries ∧
    e.corpus.Stores entries

variable {config : Config} {valid : config.Valid} {e : Extraction} {samples : List Sample}

/-- Rejecting changes the report, which the corpus knows nothing of. -/
theorem Holds.reject (h : e.Holds config valid samples) (label? : Option String) (fault : Fault) :
    (e.reject label? fault).Holds config valid samples :=
  ⟨h.config_eq, h.stores⟩

theorem Holds.offer (h : e.Holds config valid samples) (s : Sample) :
    (e.offer s.label s.tree).2.Holds config valid (samples ++ [s]) := by
  obtain ⟨rfl, entries, hentries, hstores⟩ := h
  rw [Sample.entries?] at hentries
  by_cases haccepted : s.IsAccepted
  · obtain ⟨search, hsearch, hentry⟩ := Sample.exists_entry e.valid haccepted
    let contexts := search.contextsUpTo e.config.maxPathContexts
    have hkeep : (e.offer s.label s.tree).2 = (e.keep s.label contexts).2 := by
      simp only [Extraction.offer, hsearch, keepFound_eq_keep, contexts]
    rw [hkeep]
    refine ⟨rfl, entries ++ [(s.label, contexts)], ?_, hstores.add haccepted.1 contexts⟩
    simp [Sample.entries?, List.filter_append, haccepted, hentries, hentry, contexts]
  · -- a sample that is not accepted is rejected, for its label or for its tree
    obtain ⟨fault, hfault⟩ := exists_fault_of_not_isAccepted e.valid haccepted
    have hreject : (e.offer s.label s.tree).2 = e.reject (some s.label) fault := by
      simp only [Extraction.offer, hfault]
    rw [hreject]
    refine Holds.reject ⟨rfl, entries, ?_, hstores⟩ _ _
    simp [Sample.entries?, List.filter_append, haccepted, hentries]

theorem Holds.offerRead (h : e.Holds config valid samples) (sample : Except LineFault Sample) :
    (e.offerRead sample).Holds config valid (samples ++ [sample].filterMap Except.toOption) := by
  cases sample with
  | ok s => exact h.offer s
  | error fault =>
    have hnone : [(Except.error fault : Except LineFault Sample)].filterMap Except.toOption = [] :=
      rfl
    rw [hnone, List.append_nil]
    exact h.reject _ _

theorem Holds.offerAll (h : e.Holds config valid samples) (more : List (Except LineFault Sample)) :
    (e.offerAll more).Holds config valid (samples ++ more.filterMap Except.toOption) := by
  induction more generalizing e samples with
  | nil => simpa [Extraction.offerAll] using h
  | cons sample more ih =>
    have hstep := ih (h.offerRead sample)
    rw [List.append_assoc, ← List.filterMap_append, List.singleton_append] at hstep
    exact hstep

theorem Holds.perform (h : e.Holds config valid samples) (offer : Offer) :
    (e.perform offer).Holds config valid (samples ++ offer.samples) := by
  cases offer with
  | tree label t => exact h.offer ⟨label, t⟩
  | text label s =>
    simp only [Extraction.perform, offerText, Offer.samples]
    cases SExpr.parseArena s with
    | ok t => exact h.offer ⟨label, t⟩
    | error refusal =>
      rw [List.append_nil]
      exact h.reject _ _
  | batch b =>
    simp only [Extraction.perform, offerBatch_eq_offerAll]
    exact h.offerAll b.samples

theorem Holds.run (h : e.Holds config valid samples) (offers : List Offer) :
    (e.run offers).Holds config valid (samples ++ offers.flatMap Offer.samples) := by
  induction offers generalizing e samples with
  | nil => simpa [Extraction.run] using h
  | cons offer offers ih =>
    -- the other calls start from what the first one leaves
    rw [List.flatMap_cons, ← List.append_assoc]
    exact ih (h.perform offer)

theorem new_eq (valid : config.Valid) : Extraction.new config = .ok { config, valid } := by
  have hfault := Config.fault?_eq_none.mpr valid
  unfold Extraction.new
  split
  case h_1 fault h => rw [hfault] at h; cases h
  case h_2 => rfl

theorem exists_new (valid : config.Valid) :
    ∃ e, Extraction.new config = .ok e ∧ e.Holds config valid [] :=
  ⟨_, new_eq valid, rfl, [], rfl, Corpus.stores_empty⟩

/-- **The texts of a run lose nothing**: read back without any knowledge of the run, they give the
label and the contexts of every accepted sample, in order. -/
theorem decode?_run (config : Config) (valid : config.Valid) (offers : List Offer) :
    ∃ e entries, Extraction.new config = .ok e ∧
      Sample.entries? config valid (offers.flatMap Offer.samples) = some entries ∧
      decode? ((e.run offers).corpus.text .unlimited)
        ((e.run offers).corpus.tokens.dictionary .unlimited)
        ((e.run offers).corpus.nodeTypes.dictionary .unlimited)
        ((e.run offers).corpus.paths.dictionary .unlimited) = some entries := by
  obtain ⟨e, hnew, hempty⟩ := exists_new valid
  obtain ⟨_, entries, hentries, hstores⟩ := hempty.run offers
  rw [List.nil_append] at hentries
  exact ⟨e, entries, hnew, hentries, hstores.decode?_eq⟩

/-- Labels of nodes with spaces, a token that would end its line and its field, and samples that are
not accepted. -/
theorem decode?_run_mixed :
    Config.standard.Valid ∧ ∃ e, Extraction.new .standard = .ok e ∧
      let t := Edit.build [.addNode "R UP" none, .addChild 0 "A DOWN" (some "a,\n"),
        .addChild 0 "B" (some "b")]
      let c := (e.run [.text "x" "(", .tree "no label" t, .tree "x" t,
        .batch (.atOnce [.error (.missingTab 1), .ok ⟨"y", t⟩])]).corpus
      let context : PathContext := ⟨"a,\n", ⟨["A DOWN"], "R UP", ["B"]⟩, "b"⟩
      decode? (c.text .unlimited) (c.tokens.dictionary .unlimited)
        (c.nodeTypes.dictionary .unlimited) (c.paths.dictionary .unlimited) =
          some [("x", [context]), ("y", [context])] := by
  let t := Edit.build [.addNode "R UP" none, .addChild 0 "A DOWN" (some "a,\n"),
    .addChild 0 "B" (some "b")]
  obtain ⟨e, entries, hnew, hentries, hdecode⟩ := decode?_run .standard Config.valid_standard
    [.text "x" "(", .tree "no label" t, .tree "x" t,
      .batch (.atOnce [.error (.missingTab 1), .ok ⟨"y", t⟩])]
  refine ⟨Config.valid_standard, e, hnew, hdecode.trans (hentries.symm.trans ?_)⟩
  have hcheck : t.check = .ok () := by decide +kernel
  have haccepted : ([⟨"no label", t⟩, ⟨"x", t⟩, ⟨"y", t⟩] : List Sample).filter
      (fun s => decide s.IsAccepted) = [⟨"x", t⟩, ⟨"y", t⟩] := by decide +kernel
  have hcontexts : t.contextsAlong? (Config.standard.maxPathContexts.take (t.pathsWithin
      (Config.standard.bounds Config.valid_standard))) =
        some [⟨"a,\n", ⟨["A DOWN"], "R UP", ["B"]⟩, "b"⟩] := by decide +kernel
  have hentry : ∀ label, Sample.labelledContexts? .standard Config.valid_standard ⟨label, t⟩ =
      some (label, [⟨"a,\n", ⟨["A DOWN"], "R UP", ["B"]⟩, "b"⟩]) := by
    intro label
    rw [Sample.labelledContexts?_eq _ hcheck, hcontexts, Option.map_some]
  have hsamples : List.flatMap Offer.samples [.text "x" "(", .tree "no label" t, .tree "x" t,
      .batch (.atOnce [.error (.missingTab 1), .ok ⟨"y", t⟩])] =
        [⟨"no label", t⟩, ⟨"x", t⟩, ⟨"y", t⟩] := by decide +kernel
  rw [Sample.entries?, hsamples, haccepted]
  simp [List.mapM_cons, hentry]

end Extraction

end PathCorpus
