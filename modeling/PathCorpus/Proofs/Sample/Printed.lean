import PathCorpus.Proofs.Lexicon.Reader
import PathCorpus.Proofs.SExpr.Printed
import PathCorpus.Proofs.Sample.Lines

/-!
# Files of printed trees

A file is made of labels and texts by writing each pair on a line, with a tab between the two.
If nothing in a pair breaks its line, hides it or is cut off its end, then every line gives back
its label and what its text alone is parsed as. In particular a file of printed trees is read as
those trees, one sample for each, whatever their tokens hold.

## Main statements

- `Sample.allInText_joinLines`: the file of any pairs that fit their lines.
- `Sample.allIn_printed`: the file of printed trees.
-/

namespace PathCorpus

open SExpr (IsTypeLabel parseArena)

/-! ## §1: Lines of their own -/

/-- The label and the text come back whole from a line that is made of them. -/
structure FitsLine (label text : String) : Prop where
  labelTab : '\t' ∉ label.toList
  labelFeed : '\n' ∉ label.toList
  labelStart : label.toList.head? ≠ some '#'
  textFeed : '\n' ∉ text.toList
  textEnd : text.toList.getLast? ≠ some '\r'
  visible : ∃ c ∈ label.toList ++ '\t' :: text.toList, Text.isBlank c = false

instance (label text : String) : Decidable (FitsLine label text) :=
  have : Decidable (∃ c ∈ label.toList ++ '\t' :: text.toList, Text.isBlank c = false) :=
    List.decidableBEx _ _
  decidable_of_iff
    ('\t' ∉ label.toList ∧ '\n' ∉ label.toList ∧ label.toList.head? ≠ some '#' ∧
      '\n' ∉ text.toList ∧ text.toList.getLast? ≠ some '\r' ∧
      ∃ c ∈ label.toList ++ '\t' :: text.toList, Text.isBlank c = false)
    ⟨fun ⟨h₁, h₂, h₃, h₄, h₅, h₆⟩ => ⟨h₁, h₂, h₃, h₄, h₅, h₆⟩,
      fun h => ⟨h.labelTab, h.labelFeed, h.labelStart, h.textFeed, h.textEnd, h.visible⟩⟩

namespace Sample

variable {label text : String} {pairs : List (String × String)}

/-- What a label and a text give on the line with a number. -/
def ofPair (number : Nat) (label text : String) : Except LineFault Sample :=
  ((parseArena text).map (Sample.mk label)).mapError (.badTree number label)

/-- The characters of a line. -/
def pairLine (label text : String) : List Char := label.toList ++ '\t' :: text.toList

/-- A line for each pair, with line feeds between them. -/
def joinLines (pairs : List (String × String)) : String :=
  "\n".intercalate (pairs.map fun (label, text) => label ++ "\t" ++ text)

theorem toList_joinLines (pairs : List (String × String)) :
    (joinLines pairs).toList = ['\n'].intercalate (pairs.map fun p => pairLine p.1 p.2) := by
  simp [joinLines, pairLine, String.toList_intercalate, Function.comp_def]

theorem isIgnored_pairLine (h : FitsLine label text) : isIgnored (pairLine label text) = false := by
  rw [← Bool.not_eq_true, isIgnored_iff]
  rintro (hblank | hstart)
  · obtain ⟨c, hc, hvisible⟩ := h.visible
    exact Bool.false_ne_true (hvisible.symm.trans (hblank c hc))
  · rw [pairLine, List.head?_append] at hstart
    cases hhead : label.toList.head? with
    | none => simp [hhead] at hstart
    | some c => exact h.labelStart (by simpa [hhead] using hstart)

theorem getLast?_pairLine (h : FitsLine label text) :
    (pairLine label text).getLast? ≠ some '\r' := by
  rw [pairLine, List.getLast?_append_cons, List.getLast?_cons]
  cases hlast : text.toList.getLast? with
  | none => simp
  | some c =>
    rintro hreturn
    exact h.textEnd (hlast.trans hreturn)

/-- The line of a pair gives what its text alone is parsed as. -/
theorem read?_pairLine (h : FitsLine label text) (number : Nat) :
    RawLine.read? number (.ok (pairLine label text)) = some (ofPair number label text) := by
  have hline : Text.dropReturns (pairLine label text) = pairLine label text := by
    simpa using Text.dropReturns_append (getLast?_pairLine h) 0
  rw [RawLine.read?, hline, isIgnored_pairLine h, if_neg Bool.false_ne_true, pairLine,
    ofLine_append h.labelTab, ofPair, String.ofList_toList, String.ofList_toList]
  cases parseArena text <;> rfl

theorem cut_joinLines (h : ∀ p ∈ pairs, FitsLine p.1 p.2) :
    Text.cut '\n' (joinLines pairs).toList = pairs.map fun p => pairLine p.1 p.2 := by
  rw [toList_joinLines]
  refine Text.cut_intercalate (List.forall_mem_map.mpr fun p hp => ⟨?_, ?_⟩)
  · simp [pairLine, (h p hp).labelFeed, (h p hp).textFeed]
  · simp [pairLine]

theorem allInText_joinLines (h : ∀ p ∈ pairs, FitsLine p.1 p.2) :
    allInText (joinLines pairs) = (pairs.zipIdx 1).map fun q => ofPair q.2 q.1.1 q.1.2 := by
  rw [allInText, SampleReader.toList_eq, SampleReader.left, RawLine.ofText, cut_joinLines h,
    List.map_map, List.zipIdx_map, List.filterMap_map]
  have hlines : ∀ q ∈ pairs.zipIdx 1, RawLine.read? q.2 (.ok (pairLine q.1.1 q.1.2)) =
      some (ofPair q.2 q.1.1 q.1.2) :=
    fun q hq => read?_pairLine (h q.1 (List.fst_mem_of_mem_zipIdx hq)) q.2
  exact (List.filterMap_congr hlines).trans (congrFun List.filterMap_eq_map' _)

/-! ## §2: Printed trees -/

/-- The file of some labelled trees. -/
def printFile (pairs : List (String × Ast)) : String :=
  joinLines (pairs.map fun (label, tree) => (label, String.ofList (SExpr.print tree)))

/-- A printed tree ends in a parenthesis, so its line is neither blank nor cut short. -/
theorem fitsLine_print {tree : Ast}
    (hlabel : '\t' ∉ label.toList ∧ '\n' ∉ label.toList ∧ label.toList.head? ≠ some '#')
    (htypes : ∀ l ∈ tree.labels, IsTypeLabel l) :
    FitsLine label (String.ofList (SExpr.print tree)) := by
  obtain ⟨htab, hfeed, hstart⟩ := hlabel
  have hlast := SExpr.getLast?_print tree
  refine ⟨htab, hfeed, hstart, ?_, ?_, ')', ?_, by decide⟩
  · simpa using SExpr.newline_notMem_print tree htypes
  · simp [hlast]
  · simp [List.mem_of_getLast? hlast]

theorem ofPair_print {tree : Ast} (htypes : ∀ l ∈ tree.labels, IsTypeLabel l)
    (hlevels : tree.levels ≤ 1000) (number : Nat) (label : String) :
    ofPair number label (String.ofList (SExpr.print tree)) = .ok ⟨label, tree.inPreOrder⟩ := by
  rw [ofPair, parseArena, String.toList_ofList, (SExpr.isText_print htypes).parse_eq_ok hlevels]
  rfl

/-- **A file of printed trees is read as those trees**: if the labels fit on a line, the types can
be written and no tree is too deep, there is one sample for each pair, in order, with its label and
its tree in pre-order. A reader of the bytes gives them one by one and then nothing more. -/
theorem allIn_printed (pairs : List (String × Ast))
    (hlabels : ∀ p ∈ pairs,
      '\t' ∉ p.1.toList ∧ '\n' ∉ p.1.toList ∧ p.1.toList.head? ≠ some '#')
    (htypes : ∀ p ∈ pairs, ∀ l ∈ p.2.labels, IsTypeLabel l)
    (hlevels : ∀ p ∈ pairs, p.2.levels ≤ 1000) :
    let found := pairs.map fun p => .ok ⟨p.1, p.2.inPreOrder⟩
    allInText (printFile pairs) = found ∧
      (∀ n, SampleReader.take n
        { pending := RawLine.ofBytes (Text.utf8 (printFile pairs).toList) } =
        found.take n) ∧
      ∀ p ∈ pairs, p.2.inPreOrder.IsNumbering p.2 := by
  intro found
  have hfits : ∀ q ∈ pairs.map fun (label, tree) => (label, String.ofList (SExpr.print tree)),
      FitsLine q.1 q.2 :=
    List.forall_mem_map.mpr fun p hp => fitsLine_print (hlabels p hp) (htypes p hp)
  have htext : allInText (printFile pairs) = found := by
    calc allInText (printFile pairs)
        = ((pairs.zipIdx 1).map fun q =>
            ofPair q.2 q.1.1 (String.ofList (SExpr.print q.1.2))) := by
          rw [printFile, allInText_joinLines hfits, List.zipIdx_map, List.map_map]
          rfl
      _ = (pairs.zipIdx 1).map ((fun p => .ok ⟨p.1, p.2.inPreOrder⟩) ∘ Prod.fst) := by
          refine List.map_congr_left fun q hq => ?_
          have hp := List.fst_mem_of_mem_zipIdx hq
          exact ofPair_print (htypes _ hp) (hlevels _ hp) q.2 q.1.1
      _ = found := by rw [← List.map_map, List.zipIdx_map_fst]
  refine ⟨htext, fun n => ?_, fun p _ => p.2.isNumbering_inPreOrder⟩
  rw [SampleReader.take_eq, ← SampleReader.toList_eq, ← allInBytes, ← allInText_eq, htext]

/-- A token that needs every escape, an empty one and an absent one, and labels of white space. -/
theorem allIn_printed_escaped :
    let tree := Ast.node "A" (some "\t\"\\\n\r);") [.node "B" (some "") [], .node "B" none []]
    let pairs := [("", tree), (" \r", .node "#" none [])]
    printFile pairs = "\t(A \"\\t\\\"\\\\\\n\\r);\" (B \"\") (B))\n \r\t(#)" ∧
      allInText (printFile pairs) =
        [.ok ⟨"", tree.inPreOrder⟩, .ok ⟨" \r", (Ast.node "#" none []).inPreOrder⟩] ∧
      tree.inPreOrder.IsNumbering tree ∧
      tree.inPreOrder.nodes.toList.map Node.token? = [some "\t\"\\\n\r);", some "", none] := by
  intro tree pairs
  obtain ⟨hfound, -, hnumbering⟩ :=
    allIn_printed pairs (by decide +kernel) (by decide +kernel) (by decide)
  exact ⟨by decide +kernel, hfound, hnumbering _ List.mem_cons_self, by decide +kernel⟩

end Sample

end PathCorpus
