import Mathlib.Algebra.BigOperators.Group.List.Basic
import Mathlib.Logic.Relation
import PathCorpus.Arena.Edit
import PathCorpus.Proofs.Arena.Ancestors

/-!
# Which arenas are trees

An arena is a tree when its links say so: the root exists and has no parent, every other node stands
in one child list, once, which is that of the node it names as its parent, and child lists lead from
the root to every node. The check of an arena accepts just these, although it looks at links one by
one and stops at the first that is wrong.

One invariant of the walk carries both directions, `Arena.Explores`. The ids that were visited
or are pending are the root and the children of those visited, each as often as it is listed. So
a walk that ends without a defect has seen every link of the arena, and a defect that it meets
is one of the links themselves (`Arena.HasDefect`), whatever the order of the visits.

## Main statements

- `Arena.Explores.visit`, `Arena.Explores.tells_checkFrom`: what a step keeps, what a walk tells.
- `Arena.hasDefect_of_check`: a defect that is named is there.
- `Arena.check_eq_ok_iff_isTree`: the arenas that the check accepts.
-/

namespace PathCorpus

namespace Arena

variable {t : Arena} {root id parent child : Nat}

/-! ## §1: Trees by their links -/

/-- `child` stands in the child list of `id`. -/
def Lists (t : Arena) (id child : Nat) : Prop := child ∈ t.childIds id

/-- Child lists lead from `top` to `id`. -/
def Reaches (t : Arena) (top id : Nat) : Prop := Relation.ReflTransGen t.Lists top id

/-- The child lists of all nodes, one after another. -/
def allChildIds (t : Arena) : List Nat := (List.range t.size).flatMap t.childIds

/-- The links of the arena are those of a tree with the given root. -/
structure IsTree (t : Arena) (root : Nat) : Prop where
  named : t.root? = some root
  root_lt_size : root < t.size
  noParent : t.parentId? root = none
  child_lt_size : ∀ child ∈ t.allChildIds, child < t.size
  /-- Every other node is listed once in all, and by the node that it names as its parent. -/
  listed_once : ∀ id < t.size, id ≠ root → t.allChildIds.count id = 1 ∧
    ∃ parent, t.parentId? id = some parent ∧ id ∈ t.childIds parent
  root_notMem : root ∉ t.allChildIds
  reaches : ∀ id < t.size, t.Reaches root id

/-- Only nodes that exist list children. -/
theorem lt_size_of_mem_childIds (h : child ∈ t.childIds id) : id < t.size := by
  by_contra hlt
  have hnone : t.node? id = none := node?_eq_none.mpr (Nat.le_of_not_lt hlt)
  simp [childIds, hnone] at h

theorem mem_allChildIds : child ∈ t.allChildIds ↔ ∃ id, child ∈ t.childIds id := by
  simp only [allChildIds, List.mem_flatMap, List.mem_range]
  exact ⟨fun ⟨id, _, h⟩ => ⟨id, h⟩, fun ⟨id, h⟩ => ⟨id, lt_size_of_mem_childIds h, h⟩⟩

/-- All child lists are that of one node and those of the others. -/
private theorem allChildIds_perm (hid : id < t.size) :
    t.allChildIds.Perm (t.childIds id ++ ((List.range t.size).erase id).flatMap t.childIds) :=
  (List.perm_cons_erase (List.mem_range.mpr hid)).flatMap_right t.childIds

theorem count_childIds_le_allChildIds (id child : Nat) :
    (t.childIds id).count child ≤ t.allChildIds.count child := by
  by_cases hid : id < t.size
  · rw [(allChildIds_perm hid).count_eq, List.count_append]
    exact Nat.le_add_right _ _
  · have hnone : child ∉ t.childIds id := fun h => hid (lt_size_of_mem_childIds h)
    rw [List.count_eq_zero_of_not_mem hnone]
    exact Nat.zero_le _

/-- Two nodes that list the same child list it twice. -/
private theorem two_le_count_of_ne {id' : Nat} (hne : id' ≠ id) (h : child ∈ t.childIds id)
    (h' : child ∈ t.childIds id') : 2 ≤ t.allChildIds.count child := by
  rw [(allChildIds_perm (lt_size_of_mem_childIds h)).count_eq, List.count_append]
  have hfirst : 0 < (t.childIds id).count child := List.count_pos_iff.mpr h
  have hrest : 0 < (((List.range t.size).erase id).flatMap t.childIds).count child := by
    rw [List.count_pos_iff, List.mem_flatMap]
    have hrange := List.mem_range.mpr (lt_size_of_mem_childIds h')
    exact ⟨id', (List.mem_erase_of_ne hne).mpr hrange, h'⟩
  omega

/-- In a tree a child list holds the nodes that name its owner as their parent. -/
theorem IsTree.parentId?_eq (h : t.IsTree root) (hchild : child ∈ t.childIds id) :
    t.parentId? child = some id := by
  have hmem : child ∈ t.allChildIds := mem_allChildIds.mpr ⟨id, hchild⟩
  have hne : child ≠ root := fun e => h.root_notMem (e ▸ hmem)
  obtain ⟨hcount, parent, hparent, hlisted⟩ := h.listed_once child (h.child_lt_size child hmem) hne
  -- if the parent were another node, the child would be listed twice
  by_cases hid : parent = id
  · rw [hparent, hid]
  · have := two_le_count_of_ne hid hchild hlisted
    omega

/-- In a tree parents lead from every node to the root. -/
theorem IsTree.exists_deep (h : t.IsTree root) (hid : id < t.size) : ∃ depth, t.Deep id depth := by
  induction h.reaches id hid with
  | refl => exact ⟨0, .root h.named h.root_lt_size h.noParent⟩
  | tail _ hlists ih =>
    obtain ⟨depth, hdeep⟩ := ih (lt_size_of_mem_childIds hlists)
    exact ⟨depth + 1, .link (h.parentId?_eq hlists) hdeep⟩

/-! ## §2: What a defect says -/

/-- The root leads to `id`. -/
def ReachesFromRoot (t : Arena) (id : Nat) : Prop :=
  ∃ root, t.root? = some root ∧ t.Reaches root id

/-- The arena has the defect named. -/
def HasDefect (t : Arena) : Defect → Prop
  | .noNodes => t.size = 0
  | .noRoot => ∀ root, t.root? = some root → t.size ≤ root
  | .rootHasParent root => t.root? = some root ∧ root < t.size ∧ t.parentId? root ≠ none
  | .missingChild node child =>
    t.ReachesFromRoot node ∧ child ∈ t.childIds node ∧ t.size ≤ child
  | .foreignChild node child parent? =>
    t.ReachesFromRoot node ∧ child ∈ t.childIds node ∧ child < t.size ∧
      t.parentId? child = parent? ∧ parent? ≠ some node
  | .visitedTwice node =>
    ∃ parent, t.parentId? node = some parent ∧ t.ReachesFromRoot parent ∧
      2 ≤ (t.childIds parent).count node
  | .unreached count =>
    (∀ id, t.ReachesFromRoot id → ∀ child ∈ t.childIds id,
      child < t.size ∧ t.parentId? child = some id) ∧
    0 < count ∧ ∃ ids : List Nat, ids.Nodup ∧ ids.length = count ∧
      ∀ id, id ∈ ids ↔ id < t.size ∧ ¬ t.ReachesFromRoot id

/-- A tree has no defect. -/
theorem IsTree.not_hasDefect (h : t.IsTree root) (d : Defect) : ¬ t.HasDefect d := by
  have hlt := h.root_lt_size
  intro hd
  cases d with
  | noNodes =>
    simp only [HasDefect] at hd
    omega
  | noRoot =>
    have := hd root h.named
    omega
  | rootHasParent root' =>
    obtain ⟨hnamed, _, hparent⟩ := hd
    obtain rfl := Option.some.inj (h.named.symm.trans hnamed)
    exact hparent h.noParent
  | missingChild node child =>
    obtain ⟨_, hchild, hle⟩ := hd
    have := h.child_lt_size child (mem_allChildIds.mpr ⟨node, hchild⟩)
    omega
  | foreignChild node child parent? =>
    obtain ⟨_, hchild, _, hparent, hne⟩ := hd
    exact hne (hparent.symm.trans (h.parentId?_eq hchild))
  | visitedTwice node =>
    obtain ⟨parent, _, _, hcount⟩ := hd
    have hmem : node ∈ t.allChildIds :=
      mem_allChildIds.mpr ⟨parent, List.count_pos_iff.mp (by omega)⟩
    have hle := t.count_childIds_le_allChildIds parent node
    have hne : node ≠ root := fun e => h.root_notMem (e ▸ hmem)
    have := (h.listed_once node (h.child_lt_size node hmem) hne).1
    omega
  | unreached count =>
    obtain ⟨_, hpos, ids, _, rfl, hids⟩ := hd
    obtain ⟨id, hid⟩ := List.exists_mem_of_length_pos hpos
    obtain ⟨hlt, hunreached⟩ := (hids id).mp hid
    exact hunreached ⟨root, h.named, h.reaches id hlt⟩

/-! ## §3: A walk of the check -/

theorem hasDefect_of_checkChildren {node : Fin t.size} {ids : List Nat} {d : Defect}
    (hreached : t.ReachesFromRoot node) (hids : ids ⊆ t.childIds node)
    (h : t.checkChildren node ids = .error d) : t.HasDefect d := by
  induction ids generalizing d with
  | nil => simp [checkChildren] at h
  | cons child ids ih =>
    obtain ⟨hchild, hids⟩ := List.cons_subset.mp hids
    simp only [checkChildren] at h
    split at h
    next hlt =>
      split at h
      next =>
        -- this child is in order, so the defect is that of a later one
        cases hrest : t.checkChildren node ids with
        | ok children => simp [hrest, Except.map] at h
        | error d' =>
          simp only [hrest, Except.map, Except.error.injEq] at h
          exact h ▸ ih hids hrest
      next hparent =>
        cases h
        exact ⟨hreached, hchild, hlt, parentId?_get t ⟨child, hlt⟩, hparent⟩
    next hlt =>
      cases h
      exact ⟨hreached, hchild, Nat.le_of_not_lt hlt⟩

/-- The ids without a mark. -/
def Marks.missing (marks : t.Marks) : List (Fin t.size) :=
  (List.finRange t.size).filter fun i => marks.get i == false

theorem Marks.length_missing (marks : t.Marks) : marks.missing.length = marks.unmarked := by
  have hlist : marks.toList = (List.finRange t.size).map marks.get :=
    List.ext_getElem (by simp) fun i _ _ => by simp [Vector.get]
  rw [missing, unmarked, ← Vector.count_toList, hlist, List.count, List.countP_map,
    List.countP_eq_length_filter]
  rfl

theorem Marks.get_set_eq_true (marks : t.Marks) (i j : Fin t.size) :
    (marks.set i true i.isLt).get j = true ↔ j = i ∨ marks.get j = true := by
  have hget : (marks.set i true i.isLt).get j = if i.val = j.val then true else marks.get j :=
    Vector.getElem_set i.isLt j.isLt
  rw [hget, Fin.ext_iff]
  by_cases hij : i.val = j.val
  · simp [hij]
  · simp [hij, Ne.symm hij]

/-- A walk from the root has visited some ids, and others are pending. The visited ids are those
marked, none of them twice, and all their links are in order. Visited and pending ids together are
the root and the children of what was visited, each as often as it is listed. -/
structure Explores (t : Arena) (root : Nat) (pending : List (Fin t.size)) (marks : t.Marks)
    (visited : List Nat) : Prop where
  marked : ∀ i : Fin t.size, marks.get i = true ↔ i.val ∈ visited
  nodup : visited.Nodup
  lt_size : ∀ id ∈ visited, id < t.size
  parents : ∀ id ∈ visited, ∀ child ∈ t.childIds id, t.parentId? child = some id
  links : (pending.map Fin.val ++ visited).Perm (root :: visited.flatMap t.childIds)
  reached : ∀ id ∈ pending.map Fin.val ++ visited, t.Reaches root id

/-- What the answer of a walk tells: everything that can be reached was visited, or there is the
defect that is named. -/
def Tells (t : Arena) : Except Defect t.Marks → Prop
  | .ok marks => ∃ root visited, t.root? = some root ∧ t.parentId? root = none ∧
      t.Explores root [] marks visited
  | .error d => t.HasDefect d

namespace Explores

variable {pending children : List (Fin t.size)} {visited : List Nat} {marks : t.Marks}
  {i : Fin t.size}

/-- Before the first visit the root is pending. -/
theorem start (hroot : root < t.size) :
    t.Explores root [⟨root, hroot⟩] (.replicate t.size false) [] where
  marked i := by simp [Vector.get]
  nodup := .nil
  lt_size := by simp
  parents := by simp
  links := .refl _
  reached id hid := by
    obtain rfl : id = root := by simpa using hid
    exact .refl

/-- A visit takes an id that has no mark, and leaves its children pending. -/
theorem visit (h : t.Explores root (i :: pending) marks visited) (hmark : marks.get i = false)
    (hchildren : t.checkChildren i (t.get i).children = .ok children) :
    t.Explores root (children.reverse ++ pending) (marks.set i true i.isLt)
      (i.val :: visited) := by
  obtain ⟨hids, hparents⟩ := checkChildren_eq_ok_iff.mp hchildren
  have hval : t.childIds i = children.map Fin.val := by
    rw [childIds_eq_children (node?_eq_get t i), hids]
  refine ⟨fun j => ?_, List.nodup_cons.mpr ⟨?_, h.nodup⟩, ?_, ?_, ?_, ?_⟩
  · rw [Marks.get_set_eq_true, h.marked, List.mem_cons, Fin.ext_iff]
  · intro hi
    rw [(h.marked i).mpr hi] at hmark
    cases hmark
  · exact List.forall_mem_cons.mpr ⟨i.isLt, h.lt_size⟩
  · refine List.forall_mem_cons.mpr ⟨fun child hchild => ?_, h.parents⟩
    rw [hval] at hchild
    obtain ⟨c, hc, rfl⟩ := List.mem_map.mp hchild
    exact hparents c hc
  · -- the id itself stays, and its children are new on both sides
    rw [List.perm_iff_count]
    intro a
    have hcount := h.links.count_eq a
    simp only [List.map_append, List.map_cons, List.cons_append, List.count_append,
      List.count_cons, List.map_reverse, List.count_reverse, List.flatMap_cons, hval] at hcount ⊢
    omega
  · intro id hid
    have hreached : t.Reaches root i := h.reached i (by simp)
    rw [List.map_append, List.map_reverse, ← hval] at hid
    simp only [List.mem_append, List.mem_reverse, List.mem_cons] at hid
    rcases hid with (hid | hid) | hid | hid
    · exact hreached.tail hid
    · exact h.reached id (by simp [hid])
    · exact hid ▸ hreached
    · exact h.reached id (by simp [hid])

/-- An id that is pending and visited is listed twice by its parent. -/
theorem two_le_count (h : t.Explores root (i :: pending) marks visited)
    (hroot : t.parentId? root = none) (hi : i.val ∈ visited) :
    ∃ parent ∈ visited, t.parentId? i = some parent ∧ 2 ≤ (t.childIds parent).count i.val := by
  -- the root names no parent, so no visited node lists it
  have hunlisted : root ∉ visited.flatMap t.childIds := by
    intro hmem
    obtain ⟨id, hid, hlisted⟩ := List.mem_flatMap.mp hmem
    have := h.parents id hid root hlisted
    rw [hroot] at this
    cases this
  have hvisited : 0 < visited.count i.val := List.count_pos_iff.mpr hi
  have hcount := h.links.count_eq i.val
  simp only [List.map_cons, List.cons_append, List.count_cons, List.count_append,
    beq_self_eq_true, if_true, beq_iff_eq] at hcount
  have hne : root ≠ i.val := by
    rintro rfl
    rw [List.count_eq_zero_of_not_mem hunlisted, if_pos rfl] at hcount
    omega
  rw [if_neg hne] at hcount
  obtain ⟨parent, hvisit, hlisted⟩ := List.mem_flatMap.mp
    (List.count_pos_iff.mp (show 0 < (visited.flatMap t.childIds).count i.val by omega))
  have hparent := h.parents parent hvisit i hlisted
  -- all visited nodes that list it are its parent, which was visited once
  have hother : ∀ id, id ≠ parent → id ∈ visited → (List.count i.val ∘ t.childIds) id = 0 := by
    intro id hid hmem
    rw [Function.comp_apply, List.count_eq_zero]
    intro hlisted'
    exact hid (Option.some.inj ((h.parents id hmem i hlisted').symm.trans hparent))
  rw [List.count_flatMap, List.sum_map_eq_nsmul_single parent _ hother,
    List.count_eq_one_of_mem h.nodup hvisit, one_nsmul, Function.comp_apply] at hcount
  exact ⟨parent, hvisit, hparent, by omega⟩

/-- A walk ends with nothing pending, or with a defect that is there. -/
theorem tells_checkFrom (h : t.Explores root pending marks visited) (hnamed : t.root? = some root)
    (hroot : t.parentId? root = none) : t.Tells (t.checkFrom pending marks) := by
  fun_induction checkFrom t pending marks generalizing visited with
  | case1 marks => exact ⟨root, visited, hnamed, hroot, h⟩
  | case2 marks i pending hmark =>
    obtain ⟨parent, hvisit, hparent, hcount⟩ := h.two_le_count hroot ((h.marked i).mp hmark)
    exact ⟨parent, hparent, ⟨root, hnamed, h.reached parent (by simp [hvisit])⟩, hcount⟩
  | case3 marks i pending hmark d hd =>
    refine hasDefect_of_checkChildren ⟨root, hnamed, h.reached i (by simp)⟩ ?_ hd
    rw [childIds_eq_children (node?_eq_get t i)]
    exact List.Subset.refl _
  | case4 marks i pending hmark children hchildren ih =>
    exact ih (h.visit (Bool.not_eq_true _ ▸ hmark) hchildren)

/-- A walk that has ended has visited what can be reached. -/
theorem mem_visited_iff (h : t.Explores root [] marks visited) :
    id ∈ visited ↔ t.Reaches root id := by
  constructor
  · intro hid
    exact h.reached id (by simpa using hid)
  · intro hreached
    induction hreached with
    | refl => exact h.links.mem_iff.mpr List.mem_cons_self
    | tail _ hlists ih =>
      refine h.links.mem_iff.mpr (List.mem_cons_of_mem _ ?_)
      exact List.mem_flatMap.mpr ⟨_, ih, hlists⟩

theorem mem_missing_iff (h : t.Explores root pending marks visited) :
    id ∈ marks.missing.map Fin.val ↔ id < t.size ∧ id ∉ visited := by
  simp only [Marks.missing, List.mem_map, List.mem_filter, List.mem_finRange, true_and,
    beq_iff_eq]
  constructor
  · rintro ⟨i, hi, rfl⟩
    refine ⟨i.isLt, fun hvisit => ?_⟩
    rw [(h.marked i).mpr hvisit] at hi
    cases hi
  · rintro ⟨hlt, hvisit⟩
    refine ⟨⟨id, hlt⟩, ?_, rfl⟩
    rw [← Bool.not_eq_true, h.marked]
    exact hvisit

/-- What a walk has left unmarked cannot be reached. -/
theorem hasDefect_unreached (h : t.Explores root [] marks visited) (hnamed : t.root? = some root)
    (hpos : marks.unmarked ≠ 0) : t.HasDefect (.unreached marks.unmarked) := by
  have hreached : ∀ id, t.ReachesFromRoot id ↔ id ∈ visited := by
    intro id
    rw [h.mem_visited_iff, ReachesFromRoot, hnamed]
    simp
  refine ⟨fun id hid child hchild => ?_, Nat.pos_of_ne_zero hpos, ?_⟩
  · have hvisit := (hreached id).mp hid
    refine ⟨h.lt_size child ?_, h.parents id hvisit child hchild⟩
    exact (hreached child).mp ⟨root, hnamed, ((h.mem_visited_iff).mp hvisit).tail hchild⟩
  · refine ⟨marks.missing.map Fin.val, ?_, ?_, fun id => ?_⟩
    · refine ((List.nodup_finRange t.size).filter _).map ?_
      exact fun _ _ => Fin.ext
    · rw [List.length_map, marks.length_missing]
    · rw [hreached, h.mem_missing_iff]

end Explores

/-! ## §4: The whole check -/

theorem tells_checkLinks (t : Arena) : t.Tells t.checkLinks := by
  unfold checkLinks
  split
  next hempty => simpa [Tells, HasDefect, size, isEmpty] using hempty
  next =>
    split
    next hnone =>
      intro root hroot
      rw [hnone] at hroot
      cases hroot
    next root hroot =>
      split
      next hlt =>
        have hget := parentId?_get t ⟨root, hlt⟩
        split
        next hparent =>
          refine ⟨hroot, hlt, ?_⟩
          rw [hget]
          exact Option.isSome_iff_ne_none.mp hparent
        next hparent =>
          have hnone : t.parentId? root = none := by
            rw [hget]
            simpa using hparent
          exact (Explores.start hlt).tells_checkFrom hroot hnone
      next hlt =>
        intro root' hroot'
        obtain rfl := Option.some.inj (hroot.symm.trans hroot')
        exact Nat.le_of_not_lt hlt

/-- **What a defect tells**: a defect that the check names is there. -/
theorem hasDefect_of_check {d : Defect} (h : t.check = .error d) : t.HasDefect d := by
  have htells := t.tells_checkLinks
  unfold check at h
  split at h
  next d' hlinks =>
    cases h
    rwa [hlinks] at htells
  next marks hlinks =>
    rw [hlinks] at htells
    obtain ⟨root, visited, hnamed, _, hexplores⟩ := htells
    split at h
    next => cases h
    next hunmarked =>
      cases h
      exact hexplores.hasDefect_unreached hnamed hunmarked

/-- A walk that has left nothing unmarked has seen all links of a tree. -/
theorem Explores.isTree {marks : t.Marks} {visited : List Nat}
    (h : t.Explores root [] marks visited) (hnamed : t.root? = some root)
    (hroot : t.parentId? root = none) (hunmarked : marks.unmarked = 0) : t.IsTree root := by
  have hvisited : ∀ id, id ∈ visited ↔ id < t.size := by
    have hnil : marks.missing = [] := by
      rw [← List.length_eq_zero_iff, marks.length_missing, hunmarked]
    refine fun id => ⟨h.lt_size id, fun hlt => ?_⟩
    by_contra hvisit
    have := h.mem_missing_iff.mpr ⟨hlt, hvisit⟩
    simp [hnil] at this
  -- the root and all listed ids are the ids of the arena, each of them once
  have hperm : (root :: t.allChildIds).Perm (List.range t.size) := by
    have hrange : visited.Perm (List.range t.size) := by
      rw [List.perm_ext_iff_of_nodup h.nodup List.nodup_range]
      simpa using hvisited
    exact ((hrange.flatMap_right t.childIds).cons root).symm.trans (h.links.symm.trans hrange)
  have hnodup : (root :: t.allChildIds).Nodup := hperm.nodup_iff.mpr List.nodup_range
  rw [List.nodup_cons] at hnodup
  refine ⟨hnamed, ?_, hroot, fun child hchild => ?_, fun id hid hne => ?_, hnodup.1,
    fun id hid => ?_⟩
  · exact List.mem_range.mp (hperm.mem_iff.mp List.mem_cons_self)
  · exact List.mem_range.mp (hperm.mem_iff.mp (List.mem_cons_of_mem _ hchild))
  · have hmem : id ∈ t.allChildIds :=
      List.mem_of_ne_of_mem hne (hperm.mem_iff.mpr (List.mem_range.mpr hid))
    obtain ⟨parent, hlisted⟩ := mem_allChildIds.mp hmem
    have hvisit := (hvisited parent).mpr (lt_size_of_mem_childIds hlisted)
    exact ⟨List.count_eq_one_of_mem hnodup.2 hmem, parent, h.parents parent hvisit id hlisted,
      hlisted⟩
  · exact h.mem_visited_iff.mp ((hvisited id).mpr hid)

/-- **What the check accepts**: the arenas whose links are those of a tree. In such an arena the
chain of parents of every node goes up to the root, and no node comes in it twice. The check has
an answer for every arena, since a visit marks an id that had no mark. -/
theorem check_eq_ok_iff_isTree (t : Arena) :
    (t.check = .ok () ↔ ∃ root, t.IsTree root) ∧
      ∀ root, t.IsTree root → ∀ id < t.size, ∃ depth, t.Deep id depth ∧
        (t.ancestors id).Nodup ∧ (t.ancestors id).getLast? = some root := by
  refine ⟨⟨fun h => ?_, fun ⟨root, h⟩ => ?_⟩, fun root h id hid => ?_⟩
  · have htells := t.tells_checkLinks
    unfold check at h
    split at h
    next => cases h
    next marks hlinks =>
      rw [hlinks] at htells
      obtain ⟨root, visited, hnamed, hroot, hexplores⟩ := htells
      split at h
      next hunmarked => exact ⟨root, hexplores.isTree hnamed hroot hunmarked⟩
      next => cases h
  · cases hcheck : t.check with
    | ok _ => rfl
    | error d => exact absurd (hasDefect_of_check hcheck) (h.not_hasDefect d)
  · obtain ⟨depth, hdeep⟩ := h.exists_deep hid
    exact ⟨depth, hdeep, hdeep.nodup_ancestors, hdeep.getLast?_ancestors h.named⟩

/-- A tree whose root is neither its first node nor above it from the start. -/
theorem check_eq_ok_iff_isTree_relinked :
    let t := Edit.build [.addNode "B" none, .addNode "R" none, .setRoot 1, .link 0 1,
      .addChild 0 "A" (some "a")]
    t.check = .ok () ∧ t.IsTree 1 ∧ 2 < t.size ∧ ∃ depth, t.Deep 2 depth ∧
      (t.ancestors 2).Nodup ∧ (t.ancestors 2).getLast? = some 1 := by
  intro t
  have hcheck : t.check = .ok () := by decide +kernel
  have hsize : 2 < t.size := by decide
  obtain ⟨hiff, hchains⟩ := check_eq_ok_iff_isTree t
  obtain ⟨root, htree⟩ := hiff.mp hcheck
  have hroot : t.root? = some 1 := by decide
  obtain rfl : root = 1 := Option.some.inj (htree.named.symm.trans hroot)
  exact ⟨hcheck, htree, hsize, hchains 1 htree 2 hsize⟩

end Arena

end PathCorpus
