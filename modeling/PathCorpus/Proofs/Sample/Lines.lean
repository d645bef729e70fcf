import Mathlib.Data.List.DropRight
import Mathlib.Data.List.Forall2
import Mathlib.Data.List.ReduceOption
import PathCorpus.Proofs.Text.Cut
import PathCorpus.Sample.Reader

/-!
# Every line of a file is accounted for

What one line gives is said here by cases, apart from the reader: bytes that are no text, a line
that is passed over, one without a tab, and one with a label whose tree can be read or not. A
reader gives just what the lines give, one after another, each under its own number. So neither
a fault nor a line that is passed over takes anything from the lines around it, and content that
ends in a line feed is read as if nothing came after it.

## Main statements

- `lineGives_iff`: the cases are those that the reader tells apart.
- `SampleReader.next_eq`, `SampleReader.take_eq`: one call of a reader, and several.
- `Sample.allInBytes_append`: reading goes on after a line feed as it would from the start.
- `Sample.allInBytes_exact`: what is read from bytes, wherever they are kept.
-/

namespace PathCorpus

/-! ## §1: One line -/

/-- The bytes of a line stand for a text, with carriage returns at the end that are not its own. -/
def IsLineText (line : List UInt8) (text : List Char) : Prop :=
  (∃ returns, line = Text.utf8 (text ++ List.replicate returns '\r')) ∧ text.getLast? ≠ some '\r'

/-- All of the text is white space, or it starts with `#`. -/
def IsPassedOver (text : List Char) : Prop :=
  (∀ c ∈ text, Text.isBlank c = true) ∨ text.head? = some '#'

/-- What the line with a number gives, if it gives anything. -/
inductive LineGives (number : Nat) (line : List UInt8) :
    Option (Except LineFault Sample) → Prop where
  | undecodable (h : ∀ text, line ≠ Text.utf8 text) :
    LineGives number line (some (.error (.unreadable number .invalidUtf8)))
  | nothing {text : List Char} (h : IsLineText line text) (hover : IsPassedOver text) :
    LineGives number line none
  | missingTab {text : List Char} (h : IsLineText line text) (hover : ¬ IsPassedOver text)
    (htab : '\t' ∉ text) : LineGives number line (some (.error (.missingTab number)))
  | sample {label text : List Char} {tree : Arena} (h : IsLineText line (label ++ '\t' :: text))
    (hover : ¬ IsPassedOver (label ++ '\t' :: text)) (htab : '\t' ∉ label)
    (hparse : SExpr.parseArena (String.ofList text) = .ok tree) :
    LineGives number line (some (.ok { label := String.ofList label, tree }))
  | badTree {label text : List Char} {refusal : SExpr.Refusal}
    (h : IsLineText line (label ++ '\t' :: text)) (hover : ¬ IsPassedOver (label ++ '\t' :: text))
    (htab : '\t' ∉ label) (hparse : SExpr.parseArena (String.ofList text) = .error refusal) :
    LineGives number line (some (.error (.badTree number (String.ofList label) refusal)))

theorem isIgnored_iff {text : List Char} : isIgnored text = true ↔ IsPassedOver text := by
  simp [isIgnored, IsPassedOver, Text.isBlankText]

private theorem forall_ne_tab {cs : List Char} (h : '\t' ∉ cs) :
    ∀ c ∈ cs, decide (c ≠ '\t') = true := by
  intro c hc
  rw [decide_eq_true_eq]
  rintro rfl
  exact h hc

theorem splitAtTab?_of_notMem {line : List Char} (h : '\t' ∉ line) : splitAtTab? line = none := by
  rw [splitAtTab?, List.dropWhile_eq_nil_iff.mpr (forall_ne_tab h)]

theorem splitAtTab?_append {label : List Char} (h : '\t' ∉ label) (text : List Char) :
    splitAtTab? (label ++ '\t' :: text) = some (label, text) := by
  rw [splitAtTab?, List.dropWhile_append_of_pos (forall_ne_tab h),
    List.takeWhile_append_of_pos (forall_ne_tab h)]
  simp

namespace Text

theorem dropReturns_append {text : List Char} (h : text.getLast? ≠ some '\r') (returns : Nat) :
    dropReturns (text ++ List.replicate returns '\r') = text := by
  induction returns with
  | zero =>
    rw [List.replicate_zero, List.append_nil]
    refine List.rdropWhile_eq_self_iff.mpr fun hne hlast => h ?_
    rw [List.getLast?_eq_getLast_of_ne_nil hne, of_decide_eq_true hlast]
  | succ returns ih =>
    rw [List.replicate_succ', ← List.append_assoc]
    exact (List.rdropWhile_concat_pos _ _ _ (by simp)).trans ih

theorem exists_returns (line : List Char) :
    ∃ returns, line = dropReturns line ++ List.replicate returns '\r' := by
  have hall : ∀ c ∈ line.rtakeWhile (· = '\r'), c = '\r' := by
    intro c hc
    simpa using List.mem_rtakeWhile_imp hc
  refine ⟨(line.rtakeWhile (· = '\r')).length, ?_⟩
  rw [← List.eq_replicate_of_mem hall]
  exact List.rdropWhile_append_rtakeWhile.symm

theorem getLast?_dropReturns (line : List Char) : (dropReturns line).getLast? ≠ some '\r' := by
  intro h
  obtain ⟨hne, hlast⟩ := List.mem_getLast?_eq_getLast h
  exact List.rdropWhile_last_not _ _ hne (decide_eq_true hlast.symm)

end Text

theorem Sample.ofLine_of_notMem {text : List Char} (h : '\t' ∉ text) (number : Nat) :
    Sample.ofLine number text = .error (.missingTab number) := by
  rw [Sample.ofLine, splitAtTab?_of_notMem h]

theorem Sample.ofLine_append {label : List Char} (h : '\t' ∉ label) (text : List Char)
    (number : Nat) :
    Sample.ofLine number (label ++ '\t' :: text) =
      match SExpr.parseArena (String.ofList text) with
      | .ok tree => .ok { label := String.ofList label, tree }
      | .error refusal => .error (.badTree number (String.ofList label) refusal) := by
  rw [Sample.ofLine, splitAtTab?_append h, SExpr.parseArena, String.toList_ofList]
  dsimp only
  cases SExpr.parse text <;> rfl

/-- The reader judges the text of a line. -/
theorem IsLineText.read?_eq {line : List UInt8} {text : List Char} (h : IsLineText line text)
    (number : Nat) :
    (RawLine.decode line).read? number =
      if isIgnored text then none else some (Sample.ofLine number text) := by
  obtain ⟨⟨returns, hline⟩, hlast⟩ := h
  rw [RawLine.decode_eq_ok_iff.mpr hline, RawLine.read?, Text.dropReturns_append hlast]

theorem isLineText_dropReturns {line : List UInt8} {full : List Char}
    (h : RawLine.decode line = .ok full) : IsLineText line (Text.dropReturns full) := by
  obtain ⟨returns, hfull⟩ := Text.exists_returns full
  refine ⟨⟨returns, ?_⟩, Text.getLast?_dropReturns full⟩
  rw [← hfull]
  exact RawLine.decode_eq_ok_iff.mp h

/-- Every line falls under a case, and it gives what the reader takes it to give. -/
theorem lineGives_read? (number : Nat) (line : List UInt8) :
    LineGives number line ((RawLine.decode line).read? number) := by
  cases hdecode : RawLine.decode line with
  | error fault =>
    obtain ⟨rfl, hnone⟩ := RawLine.decode_eq_error_iff.mp hdecode
    exact .undecodable hnone
  | ok full =>
    have htext := isLineText_dropReturns hdecode
    rw [← hdecode, htext.read?_eq]
    split
    next hover => exact .nothing htext (isIgnored_iff.mp hover)
    next hover =>
      have hover := mt isIgnored_iff.mpr hover
      by_cases htab : '\t' ∈ Text.dropReturns full
      · obtain ⟨label, text, hsplit, hlabel⟩ := List.eq_append_cons_of_mem htab
        rw [hsplit] at htext hover ⊢
        rw [Sample.ofLine_append hlabel]
        cases hparse : SExpr.parseArena (String.ofList text) with
        | ok tree => exact .sample htext hover hlabel hparse
        | error refusal => exact .badTree htext hover hlabel hparse
      · rw [Sample.ofLine_of_notMem htab]
        exact .missingTab htext hover htab

theorem lineGives_iff {number : Nat} {line : List UInt8}
    {result? : Option (Except LineFault Sample)} :
    LineGives number line result? ↔ (RawLine.decode line).read? number = result? := by
  constructor
  · intro h
    cases h with
    | undecodable h =>
      rw [RawLine.decode_eq_error_iff.mpr ⟨rfl, h⟩]
      rfl
    | nothing h hover => rw [h.read?_eq, if_pos (isIgnored_iff.mpr hover)]
    | missingTab h hover htab =>
      rw [h.read?_eq, if_neg (mt isIgnored_iff.mp hover), Sample.ofLine_of_notMem htab]
    | sample h hover htab hparse =>
      rw [h.read?_eq, if_neg (mt isIgnored_iff.mp hover), Sample.ofLine_append htab, hparse]
    | badTree h hover htab hparse =>
      rw [h.read?_eq, if_neg (mt isIgnored_iff.mp hover), Sample.ofLine_append htab, hparse]
  · rintro rfl
    exact lineGives_read? number line

/-! ## §2: Readers -/

namespace SampleReader

/-- What the lines that are still to come give. -/
def left (r : SampleReader) : List (Except LineFault Sample) :=
  (r.pending.zipIdx (r.asked + 1)).filterMap fun (line, number) => line.read? number

/-- A call gives the first of what is left, and leaves the others. -/
theorem next_eq (r : SampleReader) : r.next.1 = r.left.head? ∧ r.next.2.left = r.left.tail := by
  obtain ⟨pending, asked⟩ := r
  simp only [next, left]
  induction pending generalizing asked with
  | nil => exact ⟨rfl, rfl⟩
  | cons line pending ih =>
    rw [nextFrom, List.zipIdx_cons, List.filterMap_cons]
    cases hread : line.read? (asked + 1) with
    | some result => exact ⟨rfl, rfl⟩
    | none => exact ih (asked + 1)

theorem length_left_le (r : SampleReader) : r.left.length ≤ r.pending.length := by
  rw [left]
  exact (List.length_filterMap_le _ _).trans_eq List.length_zipIdx

private theorem toList_takeInto (results : Array (Except LineFault Sample)) (n : Nat)
    (r : SampleReader) : (takeInto results n r).toList = results.toList ++ r.left.take n := by
  induction n generalizing results r with
  | zero => simp [takeInto]
  | succ n ih =>
    obtain ⟨hhead, htail⟩ := r.next_eq
    unfold takeInto
    split
    next result r' hnext =>
      simp only [hnext] at hhead htail
      cases hleft : r.left with
      | nil => simp [hleft] at hhead
      | cons first rest =>
        rw [hleft, List.head?_cons, Option.some.injEq] at hhead
        rw [hleft, List.tail_cons] at htail
        simp [ih, htail, hhead]
    next r' hnext =>
      have : r.left = [] := by simpa [hnext] using hhead.symm
      simp [this]

theorem take_eq (n : Nat) (r : SampleReader) : r.take n = r.left.take n := by
  simp [take, toList_takeInto]

theorem toList_eq (r : SampleReader) : r.toList = r.left := by
  rw [toList, take_eq, List.take_of_length_le r.length_left_le]

end SampleReader

/-! ## §3: Contents -/

/-- The fault that the line would give with `n` more lines before it. -/
def LineFault.shift (n : Nat) : LineFault → LineFault
  | .unreadable line fault => .unreadable (line + n) fault
  | .missingTab line => .missingTab (line + n)
  | .badTree line label refusal => .badTree (line + n) label refusal

/-- The contents of a file, packed or as they are. The name of the file says which. -/
def IsStored (name : String) (stored bytes : List UInt8) : Prop :=
  if extension? name = some "gz" then Gzip.unpack stored = ⟨bytes, none⟩ else stored = bytes

instance (name : String) (stored bytes : List UInt8) : Decidable (IsStored name stored bytes) :=
  inferInstanceAs (Decidable (if extension? name = some "gz" then
    Gzip.unpack stored = ⟨bytes, none⟩ else stored = bytes))

/-- Nothing but a number in a fault comes from the place of a line. -/
theorem RawLine.read?_add (line : RawLine) (number n : Nat) :
    line.read? (number + n) = (line.read? number).map (Except.mapError (LineFault.shift n)) := by
  unfold RawLine.read?
  split
  next => rfl
  next text =>
    dsimp only
    split
    next => rfl
    next =>
      rw [Option.map_some, Sample.ofLine, Sample.ofLine]
      split
      next => rfl
      next label text _ =>
        dsimp only
        cases SExpr.parse text <;> rfl

namespace Sample

/-- What the lines of the bytes give, in the order of the lines. -/
theorem allInBytes_eq (bytes : List UInt8) :
    allInBytes bytes = ((Text.cut '\n'.toUInt8 bytes).zipIdx 1).filterMap
      fun p => (RawLine.decode p.1).read? p.2 := by
  rw [allInBytes, SampleReader.toList_eq, SampleReader.left, RawLine.ofBytes, List.zipIdx_map,
    List.filterMap_map]
  rfl

theorem allInBytes_eq_iff {bytes : List UInt8} {found : List (Except LineFault Sample)} :
    allInBytes bytes = found ↔ ∃ lines results, Text.IsCut '\n'.toUInt8 bytes lines ∧
      List.Forall₂ (fun p result? => LineGives p.2 p.1 result?) (lines.zipIdx 1) results ∧
      found = results.reduceOption := by
  have hresults : ∀ (lines : List (List UInt8 × Nat)) results,
      List.Forall₂ (fun p result? => LineGives p.2 p.1 result?) lines results ↔
        lines.map (fun p => (RawLine.decode p.1).read? p.2) = results := by
    intro lines results
    simp only [lineGives_iff]
    rw [← List.forall₂_map_left_iff, List.forall₂_eq_eq_eq]
  constructor
  · rintro rfl
    refine ⟨_, _, Text.isCut_cut _ bytes, (hresults _ _).mpr rfl, ?_⟩
    rw [allInBytes_eq, List.reduceOption, List.filterMap_map]
    rfl
  · rintro ⟨lines, results, hcut, hlines, rfl⟩
    rw [hresults] at hlines
    rw [allInBytes_eq, ← hcut.eq_cut, ← hlines, List.reduceOption, List.filterMap_map]
    rfl

/-- Bytes after a line feed are read as they would be read from the start, further down. -/
theorem allInBytes_append (bytes later : List UInt8) :
    allInBytes (bytes ++ ['\n'.toUInt8] ++ later) =
      allInBytes (bytes ++ ['\n'.toUInt8]) ++
        (allInBytes later).map (Except.mapError
          (LineFault.shift ((bytes ++ ['\n'.toUInt8]).count '\n'.toUInt8))) := by
  rw [allInBytes_eq, allInBytes_eq, allInBytes_eq, Text.cut_append, List.zipIdx_append,
    List.filterMap_append, Text.length_cut_concat, List.map_filterMap]
  congr 1
  rw [Nat.add_comm, ← List.map_snd_add_zipIdx_eq_zipIdx, List.filterMap_map]
  refine List.filterMap_congr fun p _ => ?_
  exact RawLine.read?_add (RawLine.decode p.1) p.2 _

theorem allInText_eq (s : String) : allInText s = allInBytes (Text.utf8 s.toList) := by
  have hlines := (Text.isCut_cut '\n' s.toList).utf8.eq_cut
  have hdecode : RawLine.decode ∘ Text.utf8 = .ok := by
    funext line
    exact RawLine.decode_eq_ok_iff.mpr rfl
  rw [allInText, allInBytes, RawLine.ofText, RawLine.ofBytes, ← hlines, List.map_map, hdecode]

theorem allInFile_eq {name : String} {stored bytes : List UInt8} (h : IsStored name stored bytes) :
    allInFile name stored = allInBytes bytes := by
  rw [IsStored] at h
  rw [allInFile, allInBytes, RawLine.ofFile]
  split
  next hname =>
    rw [if_pos hname] at h
    rw [RawLine.ofPacked, h]
  next hname =>
    rw [if_neg hname] at h
    rw [h]

end Sample

end PathCorpus
