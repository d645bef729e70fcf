import PathCorpus.Proofs.Extraction.Removal
import PathCorpus.Proofs.Sample.Printed

/-!
# Texts by themselves and on the lines of a file

Labelled texts can be offered one by one. Or they are written on the lines of a file, and what
is read from the file is offered, in turn or all at once. All three come to the same corpus and
skip the same units. In the first way a text is judged as it is offered, and in the others while
the file is read, before any label is judged. So a line is refused just where its text is, and
says so with its number before the reason.

## Main statements

- `Skipped.Restates`: what the report says of a line, from what it says of its text.
- `Candidate.restates_skippedFrom`: the entries of lines and of texts, one by one.
- `Extraction.offerAll_joinLines`: the three ways to offer labelled texts.
-/

namespace PathCorpus

open Extraction

/-! ## §1: Entries of a report -/

/-- The entry of a line says what the entry of its text says. A text that was refused is
refused on its line too, with the number of the line before the reason; the line with the
number 1 has the place `first`. -/
structure Skipped.Restates (first : Nat) (entry entry' : Skipped) : Prop where
  index : entry'.index = entry.index
  label : entry'.label? = entry.label?
  reason : match entry.fault with
    | .refused _ => ∃ label line, entry.label? = some label ∧ entry.index + 1 = first + line ∧
        entry'.reason = "line " ++ toString line ++ " (" ++ label ++ "): " ++ entry.reason
    | _ => entry'.reason = entry.reason

theorem Skipped.restates_self {first : Nat} {entry : Skipped}
    (h : ∀ refusal, entry.fault ≠ .refused refusal) : entry.Restates first entry := by
  refine ⟨rfl, rfl, ?_⟩
  split
  next refusal hfault => exact absurd hfault (h refusal)
  next => rfl

/-- A tree is there, so no text was refused. -/
theorem Sample.fault?_ne_refused {s : Sample} {fault : Fault} (h : s.fault? = some fault) :
    ∀ refusal, fault ≠ .refused refusal := by
  rintro refusal rfl
  unfold Sample.fault? at h
  split at h
  · split at h <;> cases h
  · cases h

/-! ## §2: Units -/

namespace Candidate

/-- Labelled texts as units. -/
def ofTexts (pairs : List (String × String)) : List Candidate :=
  pairs.map fun p => .text p.1 p.2

/-- Labelled texts as units that were read from lines, the first of them with the given number. -/
def ofLines (number : Nat) (pairs : List (String × String)) : List Candidate :=
  (pairs.zipIdx number).map fun q => .read (Sample.ofPair q.2 q.1.1 q.1.2)

section OneText

variable (number : Nat) (label : String) {text : String}

theorem sample_read_ofPair {t : Arena} (h : SExpr.parseArena text = .ok t) :
    (Candidate.read (Sample.ofPair number label text)).sample = (Candidate.text label text).sample ∧
      (Candidate.text label text).sample = .ok ⟨label, t⟩ := by
  simp [Sample.ofPair, sample, h, Except.map, Except.mapError]

theorem read_ofPair_of_error {refusal : SExpr.Refusal}
    (h : SExpr.parseArena text = .error refusal) :
    Candidate.read (Sample.ofPair number label text) =
      .read (.error (.badTree number label refusal)) := by
  rw [Sample.ofPair, h]
  rfl

/-- A unit that is not at fault is found to hold the same either way. -/
theorem map_finding_filter_isSound {config : Config} (valid : config.Valid)
    (pairs : List (String × String)) :
    ((ofTexts pairs).filter isSound).map (finding config valid) =
      ((ofLines number pairs).filter isSound).map (finding config valid) := by
  induction pairs generalizing number with
  | nil => rfl
  | cons p pairs ih =>
    rw [ofTexts, ofLines, List.zipIdx_cons, List.map_cons, List.map_cons, ← ofTexts, ← ofLines,
      List.filter_cons, List.filter_cons]
    cases hparse : SExpr.parseArena p.2 with
    | ok t =>
      obtain ⟨hread, htext⟩ := sample_read_ofPair number p.1 hparse
      have hsound : (Candidate.read (Sample.ofPair number p.1 p.2)).isSound =
          (Candidate.text p.1 p.2).isSound := by
        rw [isSound, fault?, hread, ← fault?, ← isSound]
      have hfinding : (Candidate.read (Sample.ofPair number p.1 p.2)).finding config valid =
          (Candidate.text p.1 p.2).finding config valid := by
        rw [finding, finding, hread, htext]
      rw [hsound]
      split
      · rw [List.map_cons, List.map_cons, hfinding, ih]
      · exact ih _
    | error refusal =>
      -- neither the text nor its line is kept
      have htext : (Candidate.text p.1 p.2).isSound = false := by
        simp [isSound, fault?, sample, hparse]
      rw [htext, read_ofPair_of_error number _ hparse]
      exact ih _

/-- One text and its line, the text at the given place. -/
theorem restates_skipped? {first place : Nat} (h : place + 1 = first + number) (text : String) :
    List.Forall₂ (Skipped.Restates first) ((Candidate.text label text).skipped? place).toList
      ((Candidate.read (Sample.ofPair number label text)).skipped? place).toList := by
  cases hparse : SExpr.parseArena text with
  | ok t =>
    obtain ⟨hread, htext⟩ := sample_read_ofPair number label hparse
    have hlabel : (Candidate.read (Sample.ofPair number label text)).label? = some label :=
      label?_of_sample (hread.trans htext)
    rw [skipped?, skipped?, fault?, fault?, hread, htext, hlabel, label?]
    dsimp only
    cases hfault : Sample.fault? ⟨label, t⟩ with
    | none => exact .nil
    | some fault =>
      refine .cons (Skipped.restates_self fun refusal => ?_) .nil
      exact Sample.fault?_ne_refused hfault refusal
  | error refusal =>
    have hfault : (Candidate.text label text).fault? = some (.refused refusal) := by
      simp [fault?, sample, hparse]
    rw [read_ofPair_of_error number _ hparse, skipped?, hfault]
    exact .cons ⟨rfl, rfl, label, number, rfl, h, rfl⟩ .nil

end OneText

theorem skippedFrom_cons (place : Nat) (c : Candidate) (cs : List Candidate) :
    skippedFrom place (c :: cs) = (c.skipped? place).toList ++ skippedFrom (place + 1) cs := by
  rw [skippedFrom, skippedFrom, List.zipIdx_cons, List.filterMap_cons]
  cases c.skipped? place <;> rfl

/-- The places go up along with the numbers of the lines. -/
theorem restates_skippedFrom {first place number : Nat} (h : place + 1 = first + number)
    (pairs : List (String × String)) :
    List.Forall₂ (Skipped.Restates first) (skippedFrom place (ofTexts pairs))
      (skippedFrom place (ofLines number pairs)) := by
  induction pairs generalizing place number with
  | nil => exact .nil
  | cons p pairs ih =>
    rw [ofTexts, ofLines, List.zipIdx_cons, List.map_cons, List.map_cons, skippedFrom_cons,
      skippedFrom_cons]
    exact List.rel_append (restates_skipped? number p.1 h p.2) (ih (by omega))

end Candidate

/-! ## §3: Extractions -/

namespace Extraction

theorem SameData.symm {e e' : Extraction} (h : e.SameData e') : e'.SameData e :=
  ⟨h.config.symm, h.corpus.symm, h.processed.symm, h.empty.symm⟩

theorem SameData.trans {e₁ e₂ e₃ : Extraction} (h : e₁.SameData e₂) (h' : e₂.SameData e₃) :
    e₁.SameData e₃ :=
  ⟨h.config.trans h'.config, h.corpus.trans h'.corpus, h.processed.trans h'.processed,
    h.empty.trans h'.empty⟩

theorem run_texts (e : Extraction) (pairs : List (String × String)) :
    e.run (pairs.map fun p => .text p.1 p.2) =
      pairs.foldl (fun e p => (e.offerText p.1 p.2).2) e :=
  List.foldl_map

theorem run_inTurn (e : Extraction) (samples : List (Except LineFault Sample)) :
    e.run [.batch (.inTurn samples)] = e.offerAll samples := rfl

theorem candidates_texts (pairs : List (String × String)) :
    (pairs.map fun p => Offer.text p.1 p.2).flatMap Offer.candidates = Candidate.ofTexts pairs := by
  simp [Offer.candidates, Candidate.ofTexts, List.flatMap_map, ← List.map_eq_flatMap]

theorem skipped_texts (e : Extraction) (pairs : List (String × String)) :
    (pairs.foldl (fun e p => (e.offerText p.1 p.2).2) e).report.skipped.toList =
      e.report.skipped.toList ++ Candidate.skippedFrom e.offered (Candidate.ofTexts pairs) := by
  rw [← candidates_texts, ← skipped_run, run_texts]

theorem candidates_joinLines {pairs : List (String × String)}
    (h : ∀ p ∈ pairs, FitsLine p.1 p.2) :
    [Offer.batch (.inTurn (Sample.allInText (Sample.joinLines pairs)))].flatMap Offer.candidates =
      Candidate.ofLines 1 pairs := by
  simp [Offer.candidates, Batch.samples, Sample.allInText_joinLines h, Candidate.ofLines]

/-- **Texts can be offered one by one or as a file**, and the file in turn or all at once: the
corpus and the counts are the same, and so are the units that are skipped, by their places and
labels. Each entry of the report restates that of the text. -/
theorem offerAll_joinLines (e : Extraction) (pairs : List (String × String))
    (h : ∀ p ∈ pairs, FitsLine p.1 p.2) :
    let read := Sample.allInText (Sample.joinLines pairs)
    let direct := pairs.foldl (fun e p => (e.offerText p.1 p.2).2) e
    let inTurn := e.offerAll read
    e.offerAllAtOnce read = inTurn ∧
      inTurn.corpus = direct.corpus ∧
      inTurn.report.processed = direct.report.processed ∧
      inTurn.report.empty = direct.report.empty ∧
      inTurn.report.skipped.toList.map (fun entry => (entry.index, entry.label?)) =
        direct.report.skipped.toList.map (fun entry => (entry.index, entry.label?)) ∧
      ∃ entries entries', direct.report.skipped.toList = e.report.skipped.toList ++ entries ∧
        inTurn.report.skipped.toList = e.report.skipped.toList ++ entries' ∧
        List.Forall₂ (Skipped.Restates e.offered) entries entries' := by
  intro read direct inTurn
  -- the first line has the number 1, and its text the place that comes next
  have hfirst : e.offered + 1 = e.offered + 1 := rfl
  have hrestates := Candidate.restates_skippedFrom hfirst pairs
  have hdirect : direct.report.skipped.toList =
      e.report.skipped.toList ++ Candidate.skippedFrom e.offered (Candidate.ofTexts pairs) :=
    e.skipped_texts pairs
  have hinTurn : inTurn.report.skipped.toList =
      e.report.skipped.toList ++ Candidate.skippedFrom e.offered (Candidate.ofLines 1 pairs) := by
    rw [← candidates_joinLines h, ← skipped_run, run_inTurn]
  -- both come to what the units without a fault come to, which are the same
  have hsame : inTurn.SameData direct := by
    have hleft := (SameData.refl e).foldl_record e.valid (Candidate.ofLines 1 pairs)
    have hright := (SameData.refl e).foldl_record e.valid (Candidate.ofTexts pairs)
    rw [← candidates_joinLines h, ← run_eq e.valid rfl, run_inTurn, candidates_joinLines h,
      ← Candidate.map_finding_filter_isSound] at hleft
    rw [← candidates_texts, ← run_eq e.valid rfl, run_texts, candidates_texts] at hright
    exact hleft.trans hright.symm
  refine ⟨(offerAllAtOnce_eq_offerAll e).1 read, hsame.corpus, hsame.processed, hsame.empty, ?_,
    _, _, hdirect, hinTurn, hrestates⟩
  have hnamed : (Candidate.skippedFrom e.offered (Candidate.ofLines 1 pairs)).map
        (fun entry => (entry.index, entry.label?)) =
      (Candidate.skippedFrom e.offered (Candidate.ofTexts pairs)).map
        (fun entry => (entry.index, entry.label?)) := by
    rw [← List.forall₂_eq_eq_eq, List.forall₂_map_left_iff, List.forall₂_map_right_iff]
    exact hrestates.flip.imp fun _ _ h => Prod.ext h.index h.label
  rw [hdirect, hinTurn, List.map_append, List.map_append, hnamed]

/-- A text that is kept, and one with a label at fault that can be read and one that cannot. -/
theorem offerAll_joinLines_mixed :
    ∃ e, Extraction.new .standard = .ok e ∧
      let pairs := [("x", "(R (A \"a\") (B \"b\"))"), ("no label", "(R)"), ("no label", "(")]
      let read := Sample.allInText (Sample.joinLines pairs)
      let direct := pairs.foldl (fun e p => (e.offerText p.1 p.2).2) e
      let badLabel := "invalid label \"no label\": must be non-empty without whitespace"
      (e.offerAllAtOnce read).corpus = direct.corpus ∧
        (e.offerAllAtOnce read).report.skipped.toList.map
            (fun entry => (entry.index, entry.label?)) =
          [(1, some "no label"), (2, some "no label")] ∧
        ∃ reason, direct.report.skipped.toList.map Skipped.reason = [badLabel, reason] ∧
          (e.offerAllAtOnce read).report.skipped.toList.map Skipped.reason =
            [badLabel, "line 3 (no label): " ++ reason] := by
  let pairs := [("x", "(R (A \"a\") (B \"b\"))"), ("no label", "(R)"), ("no label", "(")]
  let e : Extraction := { config := .standard, valid := Config.valid_standard }
  let refusal : SExpr.Refusal := .malformed ⟨['('], [], [.label]⟩
  obtain ⟨hatOnce, hcorpus, -, -, hnamed, entries, entries', hdirect, hinTurn, hrestates⟩ :=
    offerAll_joinLines e pairs (by decide +kernel)
  have hentries : (pairs.foldl (fun e p => (e.offerText p.1 p.2).2) e).report.skipped.toList =
      [⟨1, some "no label", .badLabel "no label"⟩, ⟨2, some "no label", .refused refusal⟩] := by
    refine (e.skipped_texts pairs).trans (List.nil_append _ |>.trans ?_)
    decide +kernel
  obtain rfl : entries = _ := hdirect.symm.trans hentries
  -- the entries of the file are known from those of the texts alone
  obtain ⟨a, _, hlabel, hrest, rfl⟩ := List.forall₂_cons_left_iff.mp hrestates
  obtain ⟨b, _, hrefused, hnone, rfl⟩ := List.forall₂_cons_left_iff.mp hrest
  obtain rfl := List.forall₂_nil_left_iff.mp hnone
  obtain ⟨label, line, hlabel', hline, hreason⟩ := hrefused.reason
  obtain rfl : "no label" = label := Option.some.inj hlabel'
  obtain rfl : line = 3 := by
    change 2 + 1 = 0 + line at hline
    omega
  refine ⟨e, new_eq Config.valid_standard, ?_⟩
  dsimp only
  rw [hatOnce]
  refine ⟨hcorpus, hnamed.trans ?_, Fault.message (.refused refusal), ?_, ?_⟩
  · rw [hentries]
    rfl
  · rw [hentries]
    decide +kernel
  · rw [hinTurn]
    show [a.reason, b.reason] = _
    rw [hlabel.reason, hreason]
    decide +kernel

end Extraction

end PathCorpus
