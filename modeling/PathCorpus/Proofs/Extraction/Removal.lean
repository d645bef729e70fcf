import PathCorpus.Proofs.Extraction.Run

/-!
# Units at fault leave no trace in the corpus

What is wrong with a unit, if anything, can be told from the unit alone. So a run can be
compared with the run in which the units at fault were never offered. Both come to the same
corpus and the same counts. The report of the one lists the units that the other leaves out,
each at its place among all units.

Every call comes down to recording findings, `Extraction.perform_eq`. A finding that failed adds
a line to the report, and any other adds what it holds to the corpus, whatever the report says.

## Main statements

- `Candidate.finding_eq`: the finding of a unit, from what is wrong with it.
- `Extraction.SameData.foldl_record`: two runs, one without the units at fault.
- `Extraction.skipped_run`: what a run adds to the report.
- `Extraction.run_sound`: a run and the run without the units at fault.
-/

namespace PathCorpus

/-! ## §1: Units and their faults -/

/-- One unit as a call offers it: a labelled tree, a labelled text, or what was read from a line. -/
inductive Candidate where
  | tree (label : String) (tree : Arena)
  | text (label text : String)
  | read (result : Except LineFault Sample)

/-- What is wrong with a labelled tree. The label is judged first. -/
def Sample.fault? (s : Sample) : Option Fault :=
  if isLabel s.label then
    match s.tree.check with
    | .ok _ => none
    | .error d => some (.noTree d)
  else some (.badLabel s.label)

namespace Candidate

/-- The labelled tree of a unit, or why it has none. -/
def sample : Candidate → Except Fault Sample
  | .tree label t => .ok { label, tree := t }
  | .text label s =>
    match SExpr.parseArena s with
    | .ok t => .ok { label, tree := t }
    | .error refusal => .error (.refused refusal)
  | .read (.ok s) => .ok s
  | .read (.error fault) => .error (.unread fault)

/-- The label of a unit, as far as it is known. -/
def label? : Candidate → Option String
  | .tree label _ => some label
  | .text label _ => some label
  | .read (.ok s) => some s.label
  | .read (.error fault) => fault.label?

/-- What is wrong with a unit. -/
def fault? (c : Candidate) : Option Fault :=
  match c.sample with
  | .ok s => s.fault?
  | .error fault => some fault

/-- Nothing is wrong with the unit. -/
def isSound (c : Candidate) : Bool := c.fault?.isNone

/-- The entry of a unit in a report, if it has one. -/
def skipped? (c : Candidate) (place : Nat) : Option Skipped :=
  c.fault?.map fun fault => { index := place, label? := c.label?, fault }

/-- The entries of units whose first one has the given place. -/
def skippedFrom (place : Nat) (cs : List Candidate) : List Skipped :=
  (cs.zipIdx place).filterMap fun p => p.1.skipped? p.2

theorem label?_of_sample {c : Candidate} {s : Sample} (h : c.sample = .ok s) :
    c.label? = some s.label := by
  unfold sample at h
  split at h
  case h_1 => cases h; rfl
  case h_2 =>
    split at h
    · cases h; rfl
    · cases h
  case h_3 => cases h; rfl
  case h_4 => cases h

/-- A unit without a label is a line that could not be read as far as that. -/
theorem exists_unread_of_label? {c : Candidate} (h : c.label? = none) :
    ∃ fault, c.fault? = some (.unread fault) ∧ fault.label? = none := by
  unfold label? at h
  split at h
  case h_4 fault => exact ⟨fault, rfl, h⟩
  all_goals cases h

end Candidate

namespace Offer

/-- The units of a call in order. -/
def candidates : Offer → List Candidate
  | .tree label t => [.tree label t]
  | .text label s => [.text label s]
  | .batch b => b.samples.map .read

end Offer

/-- The part of a batch that passes a test, gone through in the way of the batch. -/
def Extraction.Batch.filter (keep : Except LineFault Sample → Bool) : Batch → Batch
  | .inTurn samples => .inTurn (samples.filter keep)
  | .atOnce samples => .atOnce (samples.filter keep)

/-- The calls that are left of a call without its units at fault. -/
def Offer.sound : Offer → List Offer
  | .tree label t => if (Candidate.tree label t).isSound then [.tree label t] else []
  | .text label s => if (Candidate.text label s).isSound then [.text label s] else []
  | .batch b => [.batch (b.filter fun result => (Candidate.read result).isSound)]

theorem Offer.candidates_sound (offer : Offer) :
    offer.sound.flatMap Offer.candidates = offer.candidates.filter Candidate.isSound := by
  cases offer with
  | tree label t =>
    by_cases h : (Candidate.tree label t).isSound <;> simp [sound, candidates, h]
  | text label s =>
    by_cases h : (Candidate.text label s).isSound <;> simp [sound, candidates, h]
  | batch b =>
    cases b <;> simp [sound, candidates, Extraction.Batch.filter, Extraction.Batch.samples,
      List.filter_map, Function.comp_def]

theorem Offer.candidates_flatMap_sound (offers : List Offer) :
    (offers.flatMap Offer.sound).flatMap Offer.candidates =
      (offers.flatMap Offer.candidates).filter Candidate.isSound := by
  rw [List.flatMap_assoc, List.filter_flatMap]
  exact List.flatMap_congr fun offer _ => offer.candidates_sound

/-! ## §2: Findings -/

open Extraction

/-- What the search of a unit comes to. -/
def Candidate.finding (config : Config) (valid : config.Valid) (c : Candidate) : Finding :=
  match c.sample with
  | .ok s => .of config valid (.ok s)
  | .error fault => .failed c.label? fault

/-- A unit is found to be at fault, or its contexts are found. -/
theorem Candidate.finding_eq {config : Config} (valid : config.Valid) (c : Candidate) :
    (∃ fault, c.fault? = some fault ∧ c.finding config valid = .failed c.label? fault) ∨
      c.fault? = none ∧ ∃ label contexts, c.finding config valid = .found label contexts := by
  unfold Candidate.finding Candidate.fault?
  cases hsample : c.sample with
  | error fault => exact .inl ⟨fault, rfl, rfl⟩
  | ok s =>
    rw [Candidate.label?_of_sample hsample]
    simp only [Sample.fault?, Finding.of, searchOf, Arena.search]
    by_cases hlabel : isLabel s.label = true
    · cases hcheck : s.tree.check with
      | error d => exact .inl ⟨.noTree d, by simp [hlabel], by simp [hlabel]⟩
      | ok _ => exact .inr ⟨by simp [hlabel], s.label, _, by simp only [hlabel]; rfl⟩
    · exact .inl ⟨.badLabel s.label, by simp [hlabel], by simp [hlabel]⟩

namespace Extraction

/-- A call records the findings of its units. -/
theorem perform_eq {config : Config} (valid : config.Valid) {e : Extraction}
    (hconfig : e.config = config) (offer : Offer) :
    e.perform offer = (offer.candidates.map (Candidate.finding config valid)).foldl record e := by
  have hread : ∀ result,
      (Candidate.read result).finding config valid = .of config valid result := by
    intro result
    cases result <;> rfl
  subst hconfig
  cases offer with
  | tree label t => exact offerRead_eq_record e (.ok ⟨label, t⟩)
  | text label s =>
    simp only [perform, offerText, Offer.candidates, Candidate.finding, Candidate.sample,
      List.map_cons, List.map_nil, List.foldl_cons, List.foldl_nil]
    cases SExpr.parseArena s with
    | ok t => exact offerRead_eq_record e (.ok ⟨label, t⟩)
    | error refusal => rfl
  | batch b =>
    rw [perform, offerBatch_eq_offerAll, offerAll_eq_foldl_record valid e rfl, Offer.candidates,
      List.map_map]
    exact congrArg (List.foldl record e) (List.map_congr_left fun result _ => (hread result).symm)

theorem config_foldl_record (e : Extraction) (findings : List Finding) :
    (findings.foldl record e).config = e.config := by
  induction findings generalizing e with
  | nil => rfl
  | cons f findings ih => rw [List.foldl_cons, ih, config_record]

/-- So does a run. -/
theorem run_eq {config : Config} (valid : config.Valid) {e : Extraction}
    (hconfig : e.config = config) (offers : List Offer) :
    e.run offers =
      ((offers.flatMap Offer.candidates).map (Candidate.finding config valid)).foldl record e := by
  induction offers generalizing e with
  | nil => rfl
  | cons offer offers ih =>
    rw [run, List.foldl_cons, perform_eq valid hconfig, List.flatMap_cons, List.map_append,
      List.foldl_append]
    exact ih (by rw [config_foldl_record, hconfig])

/-! ## §3: Two runs -/

/-- The extractions differ in nothing but the units that were skipped and the number of units. -/
structure SameData (e e' : Extraction) : Prop where
  config : e.config = e'.config
  corpus : e.corpus = e'.corpus
  processed : e.report.processed = e'.report.processed
  empty : e.report.empty = e'.report.empty

variable {e e' : Extraction}

theorem SameData.refl (e : Extraction) : e.SameData e := ⟨rfl, rfl, rfl, rfl⟩

theorem SameData.reject (h : e.SameData e') (label? : Option String) (fault : Fault) :
    (e.reject label? fault).SameData e' :=
  ⟨h.config, h.corpus, h.processed, h.empty⟩

/-- What is kept does not depend on what was skipped. -/
theorem SameData.keep (h : e.SameData e') (label : String) (contexts : List PathContext) :
    (e.keep label contexts).2.SameData (e'.keep label contexts).2 := by
  unfold Extraction.keep count
  rw [h.corpus]
  refine ⟨h.config, rfl, ?_, ?_⟩
  · exact congrArg (· + 1) h.processed
  · dsimp only
    rw [h.empty]

/-- One run goes over some units, and the other only over those without a fault. -/
theorem SameData.foldl_record (h : e.SameData e') {config : Config} (valid : config.Valid)
    (cs : List Candidate) :
    ((cs.map (Candidate.finding config valid)).foldl record e).SameData
      (((cs.filter Candidate.isSound).map (Candidate.finding config valid)).foldl record e') := by
  induction cs generalizing e e' with
  | nil => exact h
  | cons c cs ih =>
    obtain ⟨fault, hfault, hfinding⟩ | ⟨hsound, label, contexts, hfinding⟩ := c.finding_eq valid
    · rw [List.filter_cons_of_neg (by simp [Candidate.isSound, hfault]), List.map_cons,
        List.foldl_cons, hfinding]
      exact ih (h.reject _ fault)
    · rw [List.filter_cons_of_pos (by simp [Candidate.isSound, hsound]), List.map_cons,
        List.map_cons, List.foldl_cons, List.foldl_cons, hfinding]
      exact ih (h.keep label contexts)

/-- One unit moves the place on, and adds its entry to the report if it has one. -/
theorem skipped_record {config : Config} (valid : config.Valid) (e : Extraction) (c : Candidate) :
    (e.record (c.finding config valid)).offered = e.offered + 1 ∧
      (e.record (c.finding config valid)).report.skipped.toList =
        e.report.skipped.toList ++ (c.skipped? e.offered).toList := by
  rw [Candidate.skipped?]
  obtain ⟨fault, hfault, hfinding⟩ | ⟨hsound, label, contexts, hfinding⟩ := c.finding_eq valid
  · rw [hfinding, hfault]
    exact ⟨rfl, Array.toList_push⟩
  · rw [hfinding, hsound]
    exact ⟨rfl, (List.append_nil _).symm⟩

theorem skipped_foldl_record {config : Config} (valid : config.Valid) (e : Extraction)
    (cs : List Candidate) :
    ((cs.map (Candidate.finding config valid)).foldl record e).report.skipped.toList =
      e.report.skipped.toList ++ Candidate.skippedFrom e.offered cs := by
  induction cs generalizing e with
  | nil => exact (List.append_nil _).symm
  | cons c cs ih =>
    obtain ⟨hoffered, hskipped⟩ := skipped_record valid e c
    rw [List.map_cons, List.foldl_cons, ih, hoffered, hskipped, List.append_assoc,
      Candidate.skippedFrom, Candidate.skippedFrom, List.zipIdx_cons, List.filterMap_cons]
    cases c.skipped? e.offered <;> rfl

/-- The report of a run lists the units at fault, each at its place. -/
theorem skipped_run (e : Extraction) (offers : List Offer) :
    (e.run offers).report.skipped.toList =
      e.report.skipped.toList ++
        Candidate.skippedFrom e.offered (offers.flatMap Offer.candidates) := by
  rw [run_eq e.valid rfl, skipped_foldl_record]

end Extraction

theorem Candidate.skippedFrom_filter_isSound (place : Nat) (cs : List Candidate) :
    skippedFrom place (cs.filter isSound) = [] := by
  rw [skippedFrom, List.filterMap_eq_nil_iff]
  intro p hp
  have hsound := (List.mem_filter.mp (List.fst_mem_of_mem_zipIdx hp)).2
  rw [isSound, Option.isNone_iff_eq_none] at hsound
  rw [skipped?, hsound, Option.map_none]

theorem Candidate.exists_unread_of_mem_skippedFrom {place : Nat} {cs : List Candidate}
    {entry : Skipped} (h : entry ∈ skippedFrom place cs) (hlabel : entry.label? = none) :
    ∃ fault, entry.fault = .unread fault ∧ fault.label? = none := by
  obtain ⟨p, -, hp⟩ := List.mem_filterMap.mp h
  obtain ⟨fault, hfault, rfl⟩ := Option.map_eq_some_iff.mp hp
  -- a unit has one fault, so it is this one
  obtain ⟨lost, hlost, hnone⟩ := exists_unread_of_label? hlabel
  rw [hfault, Option.some.injEq] at hlost
  exact ⟨lost, hlost, hnone⟩

namespace Extraction

/-- **Units at fault leave no trace in the corpus**: without them a run comes to the same corpus and
the same counts, so to the same files. All that they leave are the entries of the report, one for
each, at their places among all units. -/
theorem run_sound (e : Extraction) (offers : List Offer) :
    let units := offers.flatMap Offer.candidates
    let sound := offers.flatMap Offer.sound
    sound.flatMap Offer.candidates = units.filter Candidate.isSound ∧
      (e.run offers).corpus = (e.run sound).corpus ∧
      (∀ cutoff packing,
        (e.run offers).corpus.files cutoff packing = (e.run sound).corpus.files cutoff packing) ∧
      (e.run offers).report.processed = (e.run sound).report.processed ∧
      (e.run offers).report.empty = (e.run sound).report.empty ∧
      (e.run sound).report.skipped = e.report.skipped ∧
      (e.run offers).report.skipped.toList =
        e.report.skipped.toList ++ Candidate.skippedFrom e.offered units ∧
      ∀ entry ∈ Candidate.skippedFrom e.offered units, entry.label? = none →
        ∃ fault, entry.fault = .unread fault ∧ fault.label? = none := by
  intro units sound
  have hsound : sound.flatMap Offer.candidates = units.filter Candidate.isSound :=
    Offer.candidates_flatMap_sound offers
  -- both runs are folds over units, the one over those of the other that are sound
  have hsame : (e.run offers).SameData (e.run sound) := by
    rw [run_eq e.valid rfl, run_eq e.valid rfl, hsound]
    exact (SameData.refl e).foldl_record e.valid units
  have hnone : (e.run sound).report.skipped.toList = e.report.skipped.toList := by
    rw [skipped_run, hsound, Candidate.skippedFrom_filter_isSound, List.append_nil]
  refine ⟨hsound, hsame.corpus, fun cutoff packing => ?_, hsame.processed, hsame.empty,
    Array.toList_inj.mp hnone, skipped_run e offers, fun entry hentry hlabel => ?_⟩
  · rw [hsame.corpus]
  · exact Candidate.exists_unread_of_mem_skippedFrom hentry hlabel

/-- Every way to be at fault, with and without a label, between two trees that are kept. -/
theorem run_sound_mixed :
    ∃ e, Extraction.new .standard = .ok e ∧
      let t := Edit.build [.addNode "R" none, .addChild 0 "A" (some "a"),
        .addChild 0 "B" (some "b")]
      let parted := Edit.build [.addNode "R" none, .addNode "A" (some "a")]
      let refusal : SExpr.Refusal := .malformed ⟨['('], [], [.label]⟩
      let lost : Skipped := ⟨4, none, .unread (.missingTab 1)⟩
      let after := e.run [.text "x" "(", .tree "no label" t, .tree "x" t, .tree "z" parted,
        .batch (.atOnce [.error (.missingTab 1), .error (.badTree 2 "w" refusal), .ok ⟨"y", t⟩])]
      let sound := e.run [.tree "x" t, .batch (.atOnce [.ok ⟨"y", t⟩])]
      after.corpus = sound.corpus ∧ after.report.processed = sound.report.processed ∧
        sound.report.skipped = #[] ∧ after.report.skipped.toList =
          [⟨0, some "x", .refused refusal⟩, ⟨1, some "no label", .badLabel "no label"⟩,
            ⟨3, some "z", .noTree (.unreached 1)⟩, lost,
            ⟨5, some "w", .unread (.badTree 2 "w" refusal)⟩] ∧
        ∃ fault, lost.fault = .unread fault ∧ fault.label? = none := by
  let t := Edit.build [.addNode "R" none, .addChild 0 "A" (some "a"), .addChild 0 "B" (some "b")]
  let parted := Edit.build [.addNode "R" none, .addNode "A" (some "a")]
  let refusal : SExpr.Refusal := .malformed ⟨['('], [], [.label]⟩
  let offers : List Offer := [.text "x" "(", .tree "no label" t, .tree "x" t, .tree "z" parted,
    .batch (.atOnce [.error (.missingTab 1), .error (.badTree 2 "w" refusal), .ok ⟨"y", t⟩])]
  have hsound : offers.flatMap Offer.sound = [.tree "x" t, .batch (.atOnce [.ok ⟨"y", t⟩])] := by
    have htext : (Candidate.text "x" "(").isSound = false := by decide +kernel
    have hlabel : (Candidate.tree "no label" t).isSound = false := by decide +kernel
    have htree : (Candidate.tree "x" t).isSound = true := by decide +kernel
    have hparted : (Candidate.tree "z" parted).isSound = false := by decide +kernel
    have hread : [.error (.missingTab 1), .error (.badTree 2 "w" refusal), .ok ⟨"y", t⟩].filter
        (fun result => (Candidate.read result).isSound) = [.ok ⟨"y", t⟩] := by decide +kernel
    simp [offers, Offer.sound, htext, hlabel, htree, hparted, Extraction.Batch.filter, hread]
  have hskipped : Candidate.skippedFrom 0 (offers.flatMap Offer.candidates) =
      [⟨0, some "x", .refused refusal⟩, ⟨1, some "no label", .badLabel "no label"⟩,
        ⟨3, some "z", .noTree (.unreached 1)⟩, ⟨4, none, .unread (.missingTab 1)⟩,
        ⟨5, some "w", .unread (.badTree 2 "w" refusal)⟩] := by decide +kernel
  refine ⟨_, new_eq Config.valid_standard, ?_⟩
  obtain ⟨-, hcorpus, -, hprocessed, -, hnone, hreport, hlost⟩ :=
    run_sound { config := .standard, valid := Config.valid_standard } offers
  rw [hskipped] at hreport hlost
  rw [hsound] at hcorpus hprocessed hnone
  exact ⟨hcorpus, hprocessed, hnone, hreport, hlost _ (by simp) rfl⟩

end Extraction

end PathCorpus
