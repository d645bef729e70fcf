import Mathlib.Data.List.Nodup
import PathCorpus.Arena.Defect
import PathCorpus.Proofs.Arena.Forest

/-!
# What the check of an arena finds

The check goes down with a stack of ids and a mark for each id that it has visited. A run that
meets no defect turns its stack into trees: each pending id is the top of a tree that the arena lays
out, no two of these trees share an id, and the run has marked just their ids. Conversely a stack of
such trees is gone through without a defect.

## Main statements

- `Arena.checkLinks_eq_ok_iff`: the walk of the check succeeds on a root over a forest.
- `Arena.check_eq_ok_iff`: the check succeeds when that forest holds every id.
-/

namespace PathCorpus.Arena

variable {t : Arena}

/-! ## §1: Children -/

/-- Children pass the check when all of them exist and name the node as their parent. -/
theorem checkChildren_eq_ok_iff {node : Nat} {ids : List Nat} {children : List (Fin t.size)} :
    t.checkChildren node ids = .ok children ↔
      ids = children.map Fin.val ∧ ∀ c ∈ children, t.parentId? c = some node := by
  induction ids generalizing children with
  | nil =>
    simp only [checkChildren, Except.ok.injEq]
    constructor
    · rintro rfl
      simp
    · rintro ⟨h, _⟩
      exact (List.map_eq_nil_iff.mp h.symm).symm
  | cons id ids ih =>
    simp only [checkChildren]
    constructor
    · intro h
      -- of the three outcomes only the one where the child exists and names the node is a success
      split at h
      next hid =>
        split at h
        next hparent =>
          cases hrest : t.checkChildren node ids with
          | error d => simp [hrest, Except.map] at h
          | ok rest =>
            obtain ⟨hids, hall⟩ := ih.mp hrest
            simp only [hrest, Except.map, Except.ok.injEq] at h
            subst h
            refine ⟨by simp [hids], ?_⟩
            intro c hc
            rcases List.mem_cons.mp hc with rfl | hc
            · rw [parentId?_get]
              exact hparent
            · exact hall c hc
        next => simp at h
      next => simp at h
    · rintro ⟨hids, hall⟩
      cases children with
      | nil => simp at hids
      | cons c children =>
        simp only [List.map_cons, List.cons.injEq] at hids
        obtain ⟨rfl, hids⟩ := hids
        have hparent := hall c (by simp)
        rw [parentId?_get] at hparent
        have hrest := ih.mpr ⟨hids, fun c hc => hall c (by simp [hc])⟩
        simp [c.isLt, hparent, hrest, Except.map]

/-- Children that a forest has as its tops pass the check. -/
theorem exists_checkChildren {id : Fin t.size} {below : Forest} (h : t.Bears id below)
    (hlt : ∀ child ∈ below.tops, child < t.size) :
    ∃ children, t.checkChildren id (t.get id).children = .ok children ∧
      children.map Fin.val = below.tops := by
  obtain ⟨_, hchildren, hparent⟩ := h
  have hids : (t.get id).children = below.tops := by
    rw [← hchildren, childIds_eq_children (node?_eq_get t id)]
  let children : List (Fin t.size) := below.tops.pmap Fin.mk hlt
  have hval : children.map Fin.val = below.tops := by
    simp [children, List.map_pmap]
  refine ⟨children, ?_, hval⟩
  rw [checkChildren_eq_ok_iff]
  refine ⟨by rw [hids, hval], fun c hc => hparent c ?_⟩
  rw [← hval]
  exact List.mem_map_of_mem hc

/-! ## §2: A run of the walk -/

/-- The trees that a stack stands for: the pending ids are their tops, the arena lays them out, no
id occurs twice in them, and none of their ids is marked. -/
structure Awaits (t : Arena) (pending : List (Fin t.size)) (marks : t.Marks)
    (trees : List (Nat × Forest)) : Prop where
  tops : trees.map Prod.fst = pending.map Fin.val
  laysOut : t.LaysOut (.ofTrees trees)
  nodup : (Forest.ofTrees trees).ids.Nodup
  unmarked : ∀ i : Fin t.size, i.val ∈ (Forest.ofTrees trees).ids → marks.get i = false

/-- A single pending id stands for a single tree. -/
private theorem Awaits.exists_tree {root : Fin t.size} {marks : t.Marks}
    {trees : List (Nat × Forest)} (h : t.Awaits [root] marks trees) :
    ∃ below, trees = [(root.val, below)] := by
  -- there are as many trees as pending ids
  obtain ⟨⟨top, below⟩, rest, rfl, htop, hrest⟩ := List.map_eq_cons_iff.mp h.tops
  obtain rfl := List.map_eq_nil_iff.mp hrest
  exact ⟨below, by simpa using htop⟩

/-- The ids of some trees, when the first of them takes the last children of its top as trees of
their own and puts them in front of the others. -/
private theorem ids_expand_perm (id : Nat) (below trees : List (Nat × Forest)) :
    (Forest.ofTrees ((id, .ofTrees below) :: trees)).ids.Perm
      (id :: (Forest.ofTrees (below.reverse ++ trees)).ids) := by
  have hrev : (below.reverse.flatMap fun tree => tree.1 :: tree.2.ids).Perm
      (below.flatMap fun tree => tree.1 :: tree.2.ids) :=
    (List.reverse_perm below).flatMap_right _
  simp only [Forest.ids_ofTrees, List.flatMap_cons, List.flatMap_append, List.cons_append]
  exact .cons id (.append_right _ hrev.symm)

/-- A step of the walk, seen from the trees that the stack stands for: the first pending id makes
way for its children, the last of them first. -/
private theorem awaits_cons_iff {i : Fin t.size} {pending children : List (Fin t.size)}
    {marks : t.Marks} {below trees : List (Nat × Forest)} (hmark : marks.get i = false)
    (hbears : t.Bears i (.ofTrees below)) (hchildren : children.map Fin.val = below.map Prod.fst) :
    t.Awaits (i :: pending) marks ((i.val, .ofTrees below) :: trees) ↔
      t.Awaits (children.reverse ++ pending) (marks.set i true i.isLt)
        (below.reverse ++ trees) := by
  have hperm := ids_expand_perm i below trees
  -- the new mark matters for `i` alone, which the trees that remain do not hold
  have hmem : ∀ j : Fin t.size, (j.val ∈ (Forest.ofTrees (below.reverse ++ trees)).ids →
      (marks.set i true).get j = false) ↔ (j.val ∈ (Forest.ofTrees (below.reverse ++ trees)).ids →
        i ≠ j ∧ marks.get j = false) := by
    intro j
    show (_ → (marks.set i true)[j] = false) ↔ (_ → i ≠ j ∧ marks[j] = false)
    by_cases hij : i = j
    · subst hij
      simp
    · have hne : i.val ≠ j.val := fun h => hij (Fin.ext h)
      simp [hij, hne]
  constructor
  · -- going on: the top of the first tree is marked, and its children are trees of their own
    intro h
    have hnodup := hperm.nodup_iff.mp h.nodup
    rw [List.nodup_cons] at hnodup
    have htops : trees.map Prod.fst = pending.map Fin.val := by
      simpa using h.tops
    have hlays := laysOut_ofTrees.mp h.laysOut
    refine ⟨by simp [htops, hchildren], ?_, hnodup.2, fun j => (hmem j).mpr fun hj => ?_⟩
    · rw [laysOut_ofTrees]
      intro tree htree
      rcases List.mem_append.mp htree with htree | htree
      · have hbelow := (hlays (i.val, .ofTrees below) (by simp)).2
        exact laysOut_ofTrees.mp hbelow tree (List.mem_reverse.mp htree)
      · exact hlays tree (by simp [htree])
    · refine ⟨?_, h.unmarked j (hperm.mem_iff.mpr (by simp [hj]))⟩
      rintro rfl
      exact hnodup.1 hj
  · -- going back: the trees of the children are put under `i` again
    intro h
    have htops : trees.map Prod.fst = pending.map Fin.val := by
      have := h.tops
      rw [List.map_append, List.map_append, List.map_reverse, List.map_reverse, hchildren] at this
      exact List.append_cancel_left this
    have hlays := laysOut_ofTrees.mp h.laysOut
    have hunmarked := fun j => (hmem j).mp (h.unmarked j)
    have hfresh : i.val ∉ (Forest.ofTrees (below.reverse ++ trees)).ids := fun hi =>
      (hunmarked i hi).1 rfl
    refine ⟨by simp [htops], ?_, hperm.nodup_iff.mpr (List.nodup_cons.mpr ⟨hfresh, h.nodup⟩), ?_⟩
    · rw [laysOut_ofTrees]
      intro tree htree
      rcases List.mem_cons.mp htree with rfl | htree
      · exact ⟨hbears, laysOut_ofTrees.mpr fun b hb => hlays b (by simp [hb])⟩
      · exact hlays tree (by simp [htree])
    · intro j hj
      rcases List.mem_cons.mp (hperm.mem_iff.mp hj) with hj | hj
      · rwa [Fin.ext hj]
      · exact (hunmarked j hj).2

/-- A walk without a defect has gone through trees. -/
theorem exists_awaits_of_checkFrom {pending : List (Fin t.size)} {marks marks' : t.Marks}
    (h : t.checkFrom pending marks = .ok marks') :
    ∃ trees, t.Awaits pending marks trees ∧ ∀ i : Fin t.size,
      marks'.get i = true ↔ marks.get i = true ∨ i.val ∈ (Forest.ofTrees trees).ids := by
  -- from the end of the walk backwards: the marks at the end tell what the stack stood for
  fun_induction checkFrom t pending marks with
  | case1 marks =>
    obtain rfl : marks = marks' := by simpa using h
    exact ⟨[], ⟨by simp, trivial, by simp [Forest.ofTrees, Forest.ids], by
      simp [Forest.ofTrees, Forest.ids]⟩, by simp [Forest.ofTrees, Forest.ids]⟩
  | case2 => simp at h
  | case3 => simp at h
  | case4 marks i pending hmark children hchildren ih =>
    obtain ⟨trees', hawaits, hmarks⟩ := ih h
    have hmark' : marks.get i = false := Bool.not_eq_true _ ▸ hmark
    obtain ⟨hids, hparents⟩ := checkChildren_eq_ok_iff.mp hchildren
    -- the trees of the children stand in front of those of the ids that were pending before
    obtain ⟨front, trees, rfl, hfront, htrees⟩ : ∃ front trees, trees' = front ++ trees ∧
        front.map Prod.fst = children.reverse.map Fin.val ∧
        trees.map Prod.fst = pending.map Fin.val := by
      have := hawaits.tops
      rw [List.map_append] at this
      obtain ⟨front, trees, h₁, h₂, h₃⟩ := List.map_eq_append_iff.mp this
      exact ⟨front, trees, h₁, h₂, h₃⟩
    obtain ⟨below, rfl⟩ : ∃ below : List (Nat × Forest), front = below.reverse :=
      ⟨front.reverse, by simp⟩
    have hbelow : children.map Fin.val = below.map Prod.fst := by
      simpa [List.map_reverse] using hfront.symm
    have hbears : t.Bears i (.ofTrees below) := by
      refine ⟨i.isLt, ?_, ?_⟩
      · rw [childIds_eq_children (node?_eq_get t i), hids, Forest.tops_ofTrees, hbelow]
      · intro child hchild
        rw [Forest.tops_ofTrees, ← hbelow] at hchild
        obtain ⟨c, hc, rfl⟩ := List.mem_map.mp hchild
        exact hparents c hc
    refine ⟨(i.val, .ofTrees below) :: trees,
      (awaits_cons_iff hmark' hbears hbelow).mpr hawaits, fun j => ?_⟩
    rw [hmarks j, (ids_expand_perm i below trees).mem_iff, List.mem_cons]
    show ((marks.set i true)[j] = true ∨ _) ↔ (marks[j] = true ∨ _)
    by_cases hij : i = j
    · subst hij
      simp
    · have hne : i.val ≠ j.val := fun h => hij (Fin.ext h)
      simp [hne, Ne.symm hne]

/-- A stack that stands for trees is gone through without a defect. -/
theorem exists_checkFrom_of_awaits {pending : List (Fin t.size)} {marks : t.Marks}
    {trees : List (Nat × Forest)} (h : t.Awaits pending marks trees) :
    ∃ marks', t.checkFrom pending marks = .ok marks' := by
  fun_induction checkFrom t pending marks generalizing trees with
  | case1 marks => exact ⟨marks, rfl⟩
  | case2 marks i pending hmark =>
    -- a pending id is an id of its own tree, so it bears no mark
    obtain ⟨tree, trees, rfl, htree, _⟩ := List.map_eq_cons_iff.mp h.tops
    have hfalse : marks[i] = false :=
      h.unmarked i (by simp [Forest.ofTrees, Forest.ids, htree])
    simp [hfalse] at hmark
  | case3 marks i pending hmark d hd =>
    -- the children of a tree that is laid out pass the check
    obtain ⟨⟨_, below⟩, trees, rfl, rfl, _⟩ := List.map_eq_cons_iff.mp h.tops
    obtain ⟨hbears, hlays⟩ := laysOut_ofTrees.mp h.laysOut (i.val, below) (by simp)
    obtain ⟨children, hchildren, _⟩ := exists_checkChildren hbears fun child hchild =>
      hlays.lt_size child (below.tops_subset_ids hchild)
    simp [hchildren] at hd
  | case4 marks i pending hmark children hchildren ih =>
    obtain ⟨⟨_, below⟩, trees, rfl, rfl, _⟩ := List.map_eq_cons_iff.mp h.tops
    obtain ⟨hbears, hlays⟩ := laysOut_ofTrees.mp h.laysOut (i.val, below) (by simp)
    obtain ⟨below, rfl⟩ := below.exists_trees
    have hbelow : children.map Fin.val = below.map Prod.fst := by
      rw [← (checkChildren_eq_ok_iff.mp hchildren).1, ← Forest.tops_ofTrees, ← hbears.2.1,
        childIds_eq_children (node?_eq_get t i)]
    have hmark' : marks.get i = false := Bool.not_eq_true _ ▸ hmark
    exact ih ((awaits_cons_iff hmark' hbears hbelow).mp h)

/-! ## §3: From the root -/

/-- The first step of the walk puts the root on the stack. -/
private theorem checkLinks_eq_checkFrom {root : Nat} (hroot : t.root? = some root)
    (hlt : root < t.size) (hparent : t.parentId? root = none) :
    t.checkLinks = t.checkFrom [⟨root, hlt⟩] (.replicate t.size false) := by
  have hne : t.isEmpty = false := by
    simp only [isEmpty, Array.isEmpty_eq_false_iff]
    intro h
    simp [size, h] at hlt
  have hnone : (t.get ⟨root, hlt⟩).parent? = none := by
    rw [← parentId?_get]
    exact hparent
  simp [checkLinks, hne, hroot, hlt, hnone]

/-- The walk starts at a root that exists and names no parent, or not at all. -/
private theorem exists_root_of_checkLinks {marks : t.Marks} (h : t.checkLinks = .ok marks) :
    ∃ root, t.root? = some root ∧ root < t.size ∧ t.parentId? root = none := by
  unfold checkLinks at h
  split at h
  case isTrue => cases h
  case isFalse =>
    split at h
    case h_1 => cases h
    case h_2 root hroot =>
      split at h
      case isFalse => cases h
      case isTrue hlt =>
        split at h
        case isTrue => cases h
        case isFalse hparent =>
          refine ⟨root, hroot, hlt, ?_⟩
          rw [parentId?_get t ⟨root, hlt⟩]
          simpa using hparent

/-- At the start the stack stands for the one tree of the root. -/
private theorem awaits_root_iff {root : Nat} {below : Forest} (hlt : root < t.size)
    (hroot : t.root? = some root) (hparent : t.parentId? root = none) :
    t.Awaits [⟨root, hlt⟩] (.replicate t.size false) [(root, below)] ↔ t.Rooted root below := by
  constructor
  · intro h
    exact ⟨hroot, hparent, h.laysOut, h.nodup⟩
  · intro h
    refine ⟨rfl, h.laysOut, h.nodup, fun i _ => ?_⟩
    show (Vector.replicate t.size false)[i] = false
    simp

/-- The walk succeeds on a root over a forest, and marks its ids. -/
theorem checkLinks_eq_ok_iff {marks : t.Marks} :
    t.checkLinks = .ok marks ↔ ∃ root below, t.Rooted root below ∧
      ∀ i : Fin t.size, marks.get i = true ↔ i.val ∈ (Forest.cons root below .nil).ids := by
  have hstart : ∀ i : Fin t.size, (Vector.replicate t.size false).get i = false := by
    intro i
    show (Vector.replicate t.size false)[i] = false
    simp
  constructor
  · intro h
    obtain ⟨root, hroot, hlt, hparent⟩ := exists_root_of_checkLinks h
    rw [checkLinks_eq_checkFrom hroot hlt hparent] at h
    obtain ⟨trees, hawaits, hmarks⟩ := exists_awaits_of_checkFrom h
    obtain ⟨below, rfl⟩ := hawaits.exists_tree
    refine ⟨root, below, (awaits_root_iff hlt hroot hparent).mp hawaits, fun i => ?_⟩
    rw [hmarks i, hstart i]
    simp [Forest.ofTrees]
  · rintro ⟨root, below, hrooted, hmarks⟩
    have hlt := hrooted.root_lt_size
    rw [checkLinks_eq_checkFrom hrooted.named hlt hrooted.noParent]
    have hawaits := (awaits_root_iff hlt hrooted.named hrooted.noParent).mpr hrooted
    obtain ⟨marks', h⟩ := exists_checkFrom_of_awaits hawaits
    -- the marks at the end are settled by the forest, which is the only one
    obtain ⟨trees, hawaits', hmarks'⟩ := exists_awaits_of_checkFrom h
    obtain ⟨below', rfl⟩ := hawaits'.exists_tree
    have hrooted' := (awaits_root_iff hlt hrooted.named hrooted.noParent).mp hawaits'
    obtain ⟨_, rfl⟩ := hrooted.unique hrooted'
    rw [h, Except.ok.injEq]
    ext i hi
    have hsame : marks'.get ⟨i, hi⟩ = marks.get ⟨i, hi⟩ := by
      rw [Bool.eq_iff_iff, hmarks', hmarks, hstart]
      simp [Forest.ofTrees]
    exact hsame

/-- **What the check accepts**: a root over a forest that holds every id. -/
theorem check_eq_ok_iff :
    t.check = .ok () ↔ ∃ root below, t.Rooted root below ∧
      ∀ i < t.size, i ∈ (Forest.cons root below .nil).ids := by
  -- no mark is missing exactly when every id has one
  have hcount : ∀ marks : t.Marks, marks.unmarked = 0 ↔ ∀ i : Fin t.size, marks.get i = true := by
    intro marks
    rw [Marks.unmarked, Vector.count_eq_zero, Vector.mem_iff_getElem]
    constructor
    · intro h i
      by_contra hi
      exact h ⟨i, i.isLt, Bool.not_eq_true _ ▸ hi⟩
    · rintro h ⟨i, hi, hfalse⟩
      have htrue : marks[i] = true := h ⟨i, hi⟩
      simp [hfalse] at htrue
  constructor
  · intro h
    unfold check at h
    split at h
    · simp at h
    next marks hmarks =>
      split at h
      next hzero =>
        obtain ⟨root, below, hrooted, hids⟩ := checkLinks_eq_ok_iff.mp hmarks
        exact ⟨root, below, hrooted, fun i hi =>
          (hids ⟨i, hi⟩).mp ((hcount marks).mp hzero ⟨i, hi⟩)⟩
      next => simp at h
  · rintro ⟨root, below, hrooted, hall⟩
    have hfull : ∀ i : Fin t.size, (Vector.replicate t.size true).get i = true := by
      intro i
      show (Vector.replicate t.size true)[i] = true
      simp
    have hmarks : t.checkLinks = .ok (.replicate t.size true) :=
      checkLinks_eq_ok_iff.mpr ⟨root, below, hrooted, fun i => by simp [hfull, hall i i.isLt]⟩
    have hzero : Marks.unmarked (.replicate t.size true : t.Marks) = 0 := by
      rw [hcount]
      exact hfull
    simp [check, hmarks, hzero]

end PathCorpus.Arena
