import PathCorpus.Arena.Survey
import PathCorpus.Proofs.Arena.Tree

/-!
# What the check tells of a defective arena

The check stops at the first defect that it meets, and which one that is depends on the order of
its visits. Whichever it names, it is there: `Arena.HasDefect` says so in terms of what the root
leads to and of what is listed there, without the order. The check as a loop gives the same answer.
It comes to an end on every arena, however its nodes are linked, since no id is visited twice.

## Main statements

- `Arena.pushChildren_eq`: the children that come onto the stack.
- `Arena.Explores.exists_surveyFrom`: the loop goes along with the bounded walk, to the same answer.
- `Arena.check_diagnoses`: what an answer of the check tells, and that there is one.
-/

namespace PathCorpus.Arena

open Attempt (put entry_eq put_eq)

variable {t : Arena} {root : Nat}

/-! ## §1: One round -/

/-- The loop puts children on the stack while it looks at them, the walk when it has seen all. -/
theorem pushChildren_eq (t : Arena) (node : Nat) (pending ids : List Nat) :
    t.pushChildren node pending ids =
      (t.checkChildren node ids).map fun children => (children.map Fin.val).reverse ++ pending := by
  induction ids generalizing pending with
  | nil => rfl
  | cons child rest ih =>
    rw [pushChildren, checkChildren]
    by_cases hlt : child < t.size
    · rw [dif_pos hlt, node?_eq_get t ⟨child, hlt⟩]
      dsimp only
      split
      · rw [ih]
        cases t.checkChildren node rest with
        | error d => rfl
        | ok children => simp [Except.map]
      · rfl
    · rw [dif_neg hlt, node?_eq_none.mpr (Nat.le_of_not_lt hlt)]
      rfl

/-- A round that comes to an id without a mark. -/
theorem surveyNext_of_unmarked {marks : t.Marks} {i : Fin t.size} (hmark : marks.get i = false)
    (pending visited : List Nat) :
    t.surveyNext ⟨i.val :: pending, marks.toArray, visited⟩ =
      match t.pushChildren i pending (t.get i).children with
      | .error d => pure (.inl (.error d, i.val :: visited))
      | .ok pending =>
        pure (.inr ⟨pending, (marks.set i true i.isLt).toArray, i.val :: visited⟩) := by
  have hentry : marks.toArray[i.val]? = some false := by
    rw [← hmark]
    simp [Vector.get]
  have hnode : t.nodes[i.val]? = some (t.get i) := node?_eq_get t i
  have hput : put marks.toArray i true = pure (marks.set i true i.isLt).toArray := by
    rw [put_eq (by simp)]
    simp [Array.setIfInBounds]
  cases hpushed : t.pushChildren i pending (t.get i).children <;>
    simp only [surveyNext, entry_eq hentry, entry_eq hnode, hput, hpushed, pure_bind,
      Bool.false_eq_true, if_false]

/-- The answer of the check to what its walk comes to. -/
def verdict : Except Defect t.Marks → Except Defect Unit
  | .error d => .error d
  | .ok marks => if marks.unmarked = 0 then .ok () else .error (.unreached marks.unmarked)

theorem check_eq_verdict (t : Arena) : t.check = verdict t.checkLinks := rfl

namespace Explores

variable {pending : List (Fin t.size)} {marks : t.Marks} {visited : List Nat}

/-- Every id is visited or has no mark. -/
theorem length_add_unmarked (h : t.Explores root pending marks visited) :
    visited.length + marks.unmarked = t.size := by
  have hnodup : (visited ++ marks.missing.map Fin.val).Nodup := by
    refine List.nodup_append'.mpr ⟨h.nodup, ?_, fun id hid hid' => ?_⟩
    · exact ((List.nodup_finRange t.size).filter _).map fun _ _ => Fin.ext
    · exact (h.mem_missing_iff.mp hid').2 hid
  have hperm : (visited ++ marks.missing.map Fin.val).Perm (List.range t.size) := by
    rw [List.perm_ext_iff_of_nodup hnodup List.nodup_range]
    intro id
    rw [List.mem_append, h.mem_missing_iff, List.mem_range]
    have hlt := h.lt_size id
    tauto
  have hlength := hperm.length_eq
  rwa [List.length_append, List.length_map, marks.length_missing, List.length_range] at hlength

/-- An id that is visited now is a new one. -/
theorem nodup_cons {i : Fin t.size} (h : t.Explores root (i :: pending) marks visited)
    (hmark : marks.get i = false) : (i.val :: visited).Nodup := by
  refine List.nodup_cons.mpr ⟨fun hmem => ?_, h.nodup⟩
  rw [(h.marked i).mpr hmem] at hmark
  cases hmark

/-- **The loop and the walk**: from the same state they come to the same answer, and the ids
that the loop has visited by then are distinct and below the root. -/
theorem exists_surveyFrom (h : t.Explores root pending marks visited) :
    ∃ ids, t.surveyFrom ⟨pending.map Fin.val, marks.toArray, visited⟩ =
        pure (verdict (t.checkFrom pending marks), ids) ∧
      ids.Nodup ∧ ∀ id ∈ ids, id < t.size ∧ t.Reaches root id := by
  have hfound : ∀ id ∈ visited, id < t.size ∧ t.Reaches root id := fun id hid =>
    ⟨h.lt_size id hid, h.reached id (List.mem_append_right _ hid)⟩
  fun_induction checkFrom t pending marks generalizing visited with
  | case1 marks =>
    refine ⟨visited, ?_, h.nodup, hfound⟩
    -- the loop counts its visits, the walk the marks that are left
    have hlength := h.length_add_unmarked
    have hall : visited.length = t.size ↔ marks.unmarked = 0 := by omega
    have hmissing : t.size - visited.length = marks.unmarked := by omega
    rw [surveyFrom_eq, surveyNext, List.map_nil]
    simp only [hall, hmissing, verdict]
    split <;> rw [pure_bind, Sum.elim_inl]
  | case2 marks i pending hmark =>
    -- the answer comes before the id would be visited again
    refine ⟨visited, ?_, h.nodup, hfound⟩
    have hentry : marks.toArray[i.val]? = some true := by
      simpa using hmark
    rw [surveyFrom_eq, surveyNext, List.map_cons]
    simp only [entry_eq hentry, pure_bind, if_true, Sum.elim_inl, verdict]
  | case3 marks i pending hmark d hd =>
    have hmark' : marks.get i = false := Bool.not_eq_true _ ▸ hmark
    have hnew := List.forall_mem_cons.mpr ⟨⟨i.isLt, h.reached i (by simp)⟩, hfound⟩
    refine ⟨i.val :: visited, ?_, h.nodup_cons hmark', hnew⟩
    rw [surveyFrom_eq, List.map_cons, surveyNext_of_unmarked hmark', pushChildren_eq, hd]
    simp only [Except.map, pure_bind, Sum.elim_inl, verdict]
  | case4 marks i pending hmark children hchildren ih =>
    have hmark' : marks.get i = false := Bool.not_eq_true _ ▸ hmark
    have hvisit := h.visit hmark' hchildren
    obtain ⟨ids, hids, hfacts⟩ := ih hvisit fun id hid =>
      ⟨hvisit.lt_size id hid, hvisit.reached id (List.mem_append_right _ hid)⟩
    refine ⟨ids, ?_, hfacts⟩
    rw [surveyFrom_eq, List.map_cons, surveyNext_of_unmarked hmark', pushChildren_eq, hchildren]
    rw [List.map_append, List.map_reverse] at hids
    simpa only [Except.map, pure_bind, Sum.elim_inr] using hids

end Explores

/-! ## §2: The whole check -/

/-- The loop gives the answer of the check. -/
theorem exists_survey (t : Arena) :
    ∃ ids, t.survey = pure (t.check, ids) ∧ ids.Nodup ∧
      ∀ id ∈ ids, id < t.size ∧ t.ReachesFromRoot id := by
  rw [survey, check_eq_verdict, checkLinks]
  split
  next => exact ⟨[], rfl, .nil, List.forall_mem_nil _⟩
  next =>
    cases hroot : t.root? with
    | none => exact ⟨[], rfl, .nil, List.forall_mem_nil _⟩
    | some root =>
      by_cases hlt : root < t.size
      · simp only [dif_pos hlt, node?_eq_get t ⟨root, hlt⟩]
        split
        next => exact ⟨[], rfl, .nil, List.forall_mem_nil _⟩
        next =>
          obtain ⟨ids, hids, hnodup, hfound⟩ := (Explores.start hlt).exists_surveyFrom
          have hreached : ∀ id ∈ ids, id < t.size ∧ t.ReachesFromRoot id := fun id hid =>
            ⟨(hfound id hid).1, root, hroot, (hfound id hid).2⟩
          exact ⟨ids, by simpa using hids, hnodup, hreached⟩
      · simp only [dif_neg hlt, node?_eq_none.mpr (Nat.le_of_not_lt hlt)]
        exact ⟨[], rfl, .nil, List.forall_mem_nil _⟩

/-- **A diagnosis is true**: a defect that the check names is there. So no node is said to be
visited twice unless one child list repeats an id, whatever cycles and shared children there
are. And there is an answer for every arena: as a loop that nothing bounds, the check comes to
it after it has visited some of the nodes below the root, none of them twice. -/
theorem check_diagnoses (t : Arena) :
    (∀ d, t.check = .error d → t.HasDefect d) ∧
      ((∀ id, (t.childIds id).Nodup) → ∀ node, t.check ≠ .error (.visitedTwice node)) ∧
      ∃ visited, t.survey = pure (t.check, visited) ∧ visited.Nodup ∧
        ∀ id ∈ visited, id < t.size ∧ t.ReachesFromRoot id := by
  refine ⟨fun d => hasDefect_of_check, fun hnodup node hcheck => ?_, t.exists_survey⟩
  obtain ⟨parent, -, -, hcount⟩ := hasDefect_of_check hcheck
  have hle := List.nodup_iff_count_le_one.mp (hnodup parent) node
  omega

/-- A node that is listed twice by its parent, below a node that is shared. -/
theorem check_diagnoses_repeated :
    let t := Edit.build [.addNode "R" none, .addChild 0 "A" none, .pushChild 1 0,
      .addChild 0 "B" none, .addChild 2 "C" (some "c"), .pushChild 2 3]
    t.check = .error (.visitedTwice 3) ∧ t.HasDefect (.visitedTwice 3) := by
  intro t
  have hcheck : t.check = .error (.visitedTwice 3) := by decide +kernel
  exact ⟨hcheck, (check_diagnoses t).1 _ hcheck⟩

end PathCorpus.Arena
