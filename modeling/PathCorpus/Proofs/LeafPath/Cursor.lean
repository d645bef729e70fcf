import PathCorpus.LeafPath.Cursor
import PathCorpus.Proofs.Arena.Walkable
import PathCorpus.Proofs.LeafPath.Exact

/-!
# The search by places goes through

Whatever arena is searched, it fails the check or the search by places runs to its end. On a
tree the table of depths holds for every node the length of its chain to the root. So a climb
that is steered by the table comes to a node of the depth that it aims at, each node that it
starts from has a parent, and two climbs from one depth meet. The places stay within the table
of leaves, and each step passes a pair or a start, of which there are finitely many.

What is left for the two places is a list of pairs, the same as for a search with lists, so the two
give the same paths.

## Main statements

- `Arena.Deep.exists_ascend`: two climbs end at one node.
- `Cursor.InTree.exists_next`: what one call gives and what it leaves.
- `Arena.cursor_runs`: the search by places of any arena.
-/

namespace PathCorpus

open Attempt (entry entry_eq)

/-! ## §1: Climbing -/

namespace Arena

variable {t : Arena} {root : Nat} {below : Forest} {a b depth depth' : Nat} {depths : Array Nat}

/-- A table that holds for each node the length of its chain to the root. -/
def Measures (t : Arena) (depths : Array Nat) : Prop :=
  ∀ id depth, t.Deep id depth → depths[id]? = some depth

theorem parentOf_eq {id parent : Nat} (h : t.parentId? id = some parent) :
    t.parentOf id = pure parent := by
  obtain ⟨n, hn, hparent⟩ := Option.bind_eq_some_iff.mp h
  simp [parentOf, entry_eq hn, hparent]

/-- A climb that goes by the table takes as many links as the depths differ by. -/
theorem Deep.climbTo (ha : t.Deep a depth) (hb : t.Deep b depth') (hdepths : t.Measures depths)
    {left : List Nat} {reached : Nat} (h : t.climb? (depth - depth') a = some (left, reached))
    (behind : Array Nat) :
    t.climbTo depths b a behind = pure (behind ++ left.toArray, reached) := by
  -- the induction is on the links that are left, which the table tells at every turn of the loop
  induction hlinks : depth - depth' generalizing a depth left behind with
  | zero =>
    rw [hlinks, climb?] at h
    obtain ⟨rfl, rfl⟩ : [] = left ∧ a = reached := by simpa using h
    rw [climbTo_eq, entry_eq (hdepths a depth ha), entry_eq (hdepths b depth' hb)]
    simp [show ¬ depth' < depth by omega]
  | succ links ih =>
    obtain ⟨depth, rfl⟩ : ∃ d, depth = d + 1 := ⟨depth - 1, by omega⟩
    obtain ⟨parent, hparent, hdeep⟩ := ha.exists_parent
    have hrest : depth - depth' = links := by omega
    rw [hlinks, climb?, hparent] at h
    obtain ⟨⟨above, top⟩, hclimb, hsplit⟩ := Option.bind_eq_some_iff.mp
      ((Option.bind_some parent _).symm.trans h)
    obtain ⟨rfl, rfl⟩ : a :: above = left ∧ top = reached := by simpa using hsplit
    have hup := ih hdeep (hrest ▸ hclimb) (behind.push a) hrest
    rw [climbTo_eq, entry_eq (hdepths a _ ha), entry_eq (hdepths b depth' hb)]
    simp [show depth' < depth + 1 by omega, parentOf_eq hparent, hup]

/-- Two climbs side by side go on until they meet. -/
theorem climbBoth_of_meet? {left right : List Nat} {top : Nat}
    (h : t.meet? depth a b = some (left, top, right)) (upward downward : Array Nat) :
    t.climbBoth ⟨upward, a, downward, b⟩ =
      pure ⟨upward ++ left.toArray, top, downward ++ right.toArray, top⟩ := by
  fun_induction meet? t depth a b generalizing left right upward downward with
  | case1 depth a =>
    obtain ⟨rfl, rfl, rfl⟩ : [] = left ∧ a = top ∧ [] = right := by simpa using h
    simp [climbBoth_of_eq]
  | case2 a b hab => cases h
  | case3 a b hab depth ih =>
    obtain ⟨p, hp, h⟩ := Option.bind_eq_some_iff.mp h
    obtain ⟨q, hq, h⟩ := Option.bind_eq_some_iff.mp h
    obtain ⟨⟨left', top', right'⟩, hmeet, hsplit⟩ := Option.bind_eq_some_iff.mp h
    obtain ⟨rfl, rfl, rfl⟩ : a :: left' = left ∧ top' = top ∧ b :: right' = right := by
      simpa using hsplit
    have hup := ih p q hmeet (upward.push a) (downward.push b)
    rw [climbBoth_of_ne t hab, parentOf_eq hp, parentOf_eq hq]
    simp [hup]

/-- Two climbs from nodes on chains to the root end at one node, and they leave behind the path
between the two. -/
theorem Deep.exists_ascend (ha : t.Deep a depth) (hb : t.Deep b depth')
    (hdepths : t.Measures depths) : ∃ s, t.ascend depths a b = pure s ∧ s.a = s.b ∧ s.a < t.size ∧
      t.joining? a b = some ⟨a, s.upward.toList, s.a, s.downward.reverse.toList, b⟩ := by
  have ha' : t.Deep a (depth - depth' + min depth depth') := by
    rwa [show depth - depth' + min depth depth' = depth by omega]
  have hb' : t.Deep b (depth' - depth + min depth depth') := by
    rwa [show depth' - depth + min depth depth' = depth' by omega]
  obtain ⟨up, a', hup, hadeep, -, -⟩ := ha'.exists_climb?
  obtain ⟨down, b', hdown, hbdeep, -, -⟩ := hb'.exists_climb?
  obtain ⟨left, top, right, hmeet, hjoins⟩ := hadeep.exists_meet? hbdeep
  obtain ⟨_, htop⟩ := hjoins.deep
  have hclimbA := ha.climbTo hb hdepths hup #[]
  -- the second climb goes by the depth that the first one has come to
  have hlinks : depth' - min depth depth' = depth' - depth := by omega
  have hclimbB := hb.climbTo hadeep hdepths (hlinks ▸ hdown) #[]
  refine ⟨⟨(up ++ left).toArray, top, (down ++ right).toArray, top⟩, ?_, rfl, htop.id_lt_size, ?_⟩
  · simp [ascend, hclimbA, hclimbB, climbBoth_of_meet? hmeet]
  · rw [← pathBetween?_eq_joining? ha hb]
    simp [pathBetween?, hup, hdown, hmeet]

theorem Rooted.measures_depths (h : t.Rooted root below)
    (hall : ∀ id < t.size, id ∈ (Forest.cons root below .nil).ids) : t.Measures t.depths := by
  intro id depth hdeep
  obtain ⟨d, hstop⟩ := Forest.exists_stop_of_mem_ids 0 (hall id hdeep.id_lt_size)
  obtain rfl := hdeep.depth_unique (h.deep_of_mem_stops hstop)
  exact h.getElem?_depths hstop

end Arena

/-! ## §2: The pairs that are left -/

namespace Cursor

/-- The partners of the current start that are not tried yet. -/
def ahead (c : Cursor) : List Nat := (c.leaves.toList.take (c.lastPartner + 1)).drop c.j

/-- The pairs that the places have not come to. -/
def pairs (c : Cursor) : List (Nat × Nat) :=
  pairsLeft c.bounds.maxWidth (c.leaves.toList.drop c.i) c.ahead

/-- The paths that the search has not given yet. -/
def left (c : Cursor) : List LeafPath :=
  c.pairs.filterMap fun (a, b) =>
    (c.tree.joining? a b).filter fun p => c.bounds.maxHeight.Admits p.height

variable {c : Cursor}

theorem lastPartner_le (c : Cursor) : c.lastPartner ≤ c.leaves.size - 1 := by
  unfold lastPartner
  split
  · exact Nat.min_le_right _ _
  · exact Nat.le_refl _

/-- A start that is not tried yet has all the partners that the width reaches. -/
theorem pairs_of_eq (hj : c.j = c.i + 1) :
    c.pairs = pairsFrom c.bounds.maxWidth (c.leaves.toList.drop c.i) := by
  have hahead : c.ahead = c.bounds.maxWidth.take (c.leaves.toList.drop c.j) := by
    rw [ahead, List.drop_take, lastPartner, hj]
    cases c.bounds.maxWidth with
    | unlimited =>
      apply List.take_of_length_le
      simp only [List.length_drop, Array.length_toList]
      omega
    | atMost n =>
      apply List.take_eq_take_iff.mpr
      simp only [List.length_drop, Array.length_toList]
      omega
  rw [pairs, hahead, hj, ← List.tail_drop, pairsLeft_take_tail]

/-- With no partner left the next start takes over. -/
theorem pairs_of_lastPartner_lt (hi : c.i < c.leaves.size) (hj : c.lastPartner < c.j) :
    c.pairs = pairs { c with i := c.i + 1, j := c.i + 1 + 1 } := by
  have hnone : c.ahead = [] := by
    rw [ahead, List.drop_eq_nil_iff]
    exact Nat.le_trans (List.length_take_le _ _) hj
  rw [pairs_of_eq (c := { c with i := c.i + 1, j := c.i + 1 + 1 }) rfl, pairs, hnone,
    List.drop_eq_getElem_cons (l := c.leaves.toList) hi]
  rfl

theorem pairs_of_le_lastPartner (hi : c.i + 1 < c.leaves.size) (hj : c.j ≤ c.lastPartner) :
    ∃ a b, c.leaves[c.i]? = some a ∧ c.leaves[c.j]? = some b ∧
      c.pairs = (a, b) :: pairs { c with j := c.j + 1 } := by
  have hlast := c.lastPartner_le
  have hstart : c.i < c.leaves.toList.length := by
    rw [Array.length_toList]
    omega
  have hpartner : c.j < (c.leaves.toList.take (c.lastPartner + 1)).length := by
    rw [List.length_take, Array.length_toList]
    omega
  refine ⟨c.leaves.toList[c.i], (c.leaves.toList.take (c.lastPartner + 1))[c.j], ?_, ?_, ?_⟩
  · simp
  · simp
  · rw [pairs, pairs, ahead, List.drop_eq_getElem_cons hstart, List.drop_eq_getElem_cons hpartner]
    rfl

/-- The last leaf has no partner. -/
theorem pairs_of_size_le (hi : c.leaves.size ≤ c.i + 1) (hij : c.i < c.j) : c.pairs = [] := by
  have hnone : c.ahead = [] := by
    have hlast := c.lastPartner_le
    rw [ahead, List.drop_eq_nil_iff, List.length_take, Array.length_toList]
    omega
  rw [pairs, hnone]
  cases hstarts : c.leaves.toList.drop c.i with
  | nil => rfl
  | cons start later =>
    have hlater : later = [] := by
      have hlength := congrArg List.length hstarts
      simp only [List.length_drop, Array.length_toList, List.length_cons] at hlength
      exact List.eq_nil_of_length_eq_zero (by omega)
    rw [hlater]
    rfl

/-! ## §3: One call after another -/

/-- The places run over the leaves of a tree, with the tables of the tree. -/
structure InTree (c : Cursor) : Prop where
  check : c.tree.check = .ok ()
  leaves : c.leaves = c.tree.leaves.toArray
  depths : c.depths = c.tree.depths
  lt : c.i < c.j

theorem InTree.exists_deep (h : c.InTree) {place id : Nat} (hid : c.leaves[place]? = some id) :
    ∃ depth, c.depths[id]? = some depth ∧ c.tree.Deep id depth := by
  obtain ⟨root, below, hrooted, -⟩ := Arena.check_eq_ok_iff.mp h.check
  rw [h.leaves, List.getElem?_toArray] at hid
  rw [h.depths]
  exact hrooted.exists_depth_of_mem_leaves (List.mem_of_getElem? hid)

theorem InTree.measures_depths (h : c.InTree) : c.tree.Measures c.depths := by
  obtain ⟨root, below, hrooted, hall⟩ := Arena.check_eq_ok_iff.mp h.check
  rw [h.depths]
  exact hrooted.measures_depths hall

/-- The path of two nodes is built, and left out if it is too long. -/
theorem InTree.build (h : c.InTree) {a b depth depth' : Nat} (ha : c.tree.Deep a depth)
    (hb : c.tree.Deep b depth') : c.build a b = pure
      ((c.tree.joining? a b).filter fun p => c.bounds.maxHeight.Admits p.height) := by
  obtain ⟨s, hascend, -, -, hjoining⟩ := ha.exists_ascend hb h.measures_depths
  rw [Cursor.build, hascend, hjoining, Option.filter_some]
  simp only [pure_bind, LeafPath.height, Array.length_toList, Array.size_reverse]
  split <;> simp_all

/-- A step at a pair: its path if that is within the height bound, or on to what comes after it. -/
theorem InTree.step_of_le (h : c.InTree) (hi : c.i + 1 < c.leaves.size) (hj : c.j ≤ c.lastPartner) :
    ∃ path?, c.left = path?.toList ++ left { c with j := c.j + 1 } ∧
      c.step = pure (match path? with
        | some p => .inl (some p, { c with j := c.j + 1 })
        | none => .inr { c with j := c.j + 1 }) := by
  obtain ⟨a, b, ha, hb, hpairs⟩ := pairs_of_le_lastPartner hi hj
  obtain ⟨depth, hdepth, hadeep⟩ := h.exists_deep ha
  obtain ⟨depth', hdepth', hbdeep⟩ := h.exists_deep hb
  obtain ⟨p, hp, -, -, -, hheight⟩ := Arena.exists_joining? hadeep hbdeep
  refine ⟨(c.tree.joining? a b).filter fun p => c.bounds.maxHeight.Admits p.height, ?_, ?_⟩
  · rw [left, hpairs, hp, Option.filter_some, List.filterMap_cons]
    split <;> simp_all [left]
  · have hbuild := InTree.build (c := { c with j := c.j + 1 })
      ⟨h.check, h.leaves, h.depths, Nat.lt_succ_of_lt h.lt⟩ hadeep hbdeep
    rw [step, if_pos hi, if_neg (Nat.not_lt.mpr hj), entry_eq ha, entry_eq hb]
    simp only [pure_bind, entry_eq hdepth, entry_eq hdepth', hbuild]
    split
    · split
      next hpath => rw [hpath]
      next hpath => rw [hpath]
    next hshort =>
      -- a path has at least as many links as the depths differ by
      have hlong : ¬ c.bounds.maxHeight.Admits p.height := fun hadmits =>
        hshort (hadmits.mono hheight)
      rw [hp, Option.filter_some, if_neg (by simpa using hlong)]

/-- One call gives the first path that is left, and leaves the others. -/
theorem InTree.exists_next {c : Cursor} (h : c.InTree) :
    ∃ c', c.next = pure (c.left.head?, c') ∧ c'.left = c.left.tail ∧ c'.InTree := by
  rw [next_eq]
  by_cases hi : c.i + 1 < c.leaves.size
  · by_cases hj : c.lastPartner < c.j
    · have hleft : c.left = left { c with i := c.i + 1, j := c.i + 1 + 1 } := by
        rw [left, pairs_of_lastPartner_lt (Nat.lt_of_succ_lt hi) hj]
        rfl
      -- a start is passed, or below a pair is: the measure at the end goes down either way
      have hlater : InTree { c with i := c.i + 1, j := c.i + 1 + 1 } :=
        ⟨h.check, h.leaves, h.depths, Nat.lt_succ_self _⟩
      obtain ⟨c', hnext, hrest⟩ := hlater.exists_next
      refine ⟨c', ?_, hleft ▸ hrest⟩
      rw [step, if_pos hi, if_pos hj, pure_bind, Sum.elim_inr, hnext, hleft]
    · have hlast := c.lastPartner_le
      have hlater : InTree { c with j := c.j + 1 } :=
        ⟨h.check, h.leaves, h.depths, Nat.lt_succ_of_lt h.lt⟩
      obtain ⟨path?, hleft, hstep⟩ := h.step_of_le hi (Nat.not_lt.mp hj)
      rw [hstep, hleft, pure_bind]
      cases path? with
      | some p => exact ⟨_, rfl, rfl, hlater⟩
      | none => exact hlater.exists_next
  · -- no call gives anything from here on
    have hleft : c.left = [] := by
      rw [left, pairs_of_size_le (Nat.le_of_not_lt hi) h.lt, List.filterMap_nil]
    refine ⟨c, ?_, by rw [hleft, List.tail_nil], h⟩
    rw [step, if_neg hi, pure_bind, Sum.elim_inl, hleft, List.head?_nil]
termination_by (c.leaves.size - c.i, c.leaves.size - c.j)

theorem InTree.exists_nth (h : c.InTree) (calls : Nat) :
    ∃ c', c.nth calls = pure (c.left[calls]?, c') := by
  induction calls generalizing c with
  | zero =>
    obtain ⟨c', hnext, -, -⟩ := h.exists_next
    exact ⟨c', by rw [nth, hnext, List.head?_eq_getElem?]⟩
  | succ calls ih =>
    obtain ⟨c', hnext, hleft, h'⟩ := h.exists_next
    obtain ⟨last, hlast⟩ := ih h'
    refine ⟨last, ?_⟩
    simp only [nth, hnext, pure_bind, hlast, hleft, List.getElem?_tail]

/-- The calls come to an end when all paths are given. -/
theorem InTree.collect (h : c.InTree) (found : Array LeafPath) :
    c.collect found = pure (found ++ c.left.toArray) := by
  induction hpaths : c.left generalizing c found with
  | nil =>
    obtain ⟨c', hnext, -, -⟩ := h.exists_next
    rw [hpaths] at hnext
    rw [collect_of_none hnext, Array.append_empty]
  | cons p paths ih =>
    obtain ⟨c', hnext, hleft, h'⟩ := h.exists_next
    rw [hpaths] at hnext hleft
    rw [collect_of_some hnext, ih h' (found.push p) hleft]
    simp

end Cursor

/-! ## §4: Contexts -/

namespace LeafPath

variable {t : Arena} {p : LeafPath}

theorem labelAt_eq {id : Nat} {label : String} (h : t.label? id = some label) :
    labelAt t id = pure label := by
  obtain ⟨n, hn, rfl⟩ := Option.map_eq_some_iff.mp h
  rw [labelAt, entry_eq hn, pure_bind]

theorem mapM_labelAt_eq {ids : List Nat} {labels : List String}
    (h : ids.mapM t.label? = some labels) : ids.mapM (labelAt t) = pure labels := by
  induction ids generalizing labels with
  | nil =>
    obtain rfl : [] = labels := by simpa using h
    rfl
  | cons id ids ih =>
    rw [List.mapM_cons] at h
    obtain ⟨label, hlabel, h⟩ := Option.bind_eq_some_iff.mp h
    obtain ⟨labels', hlabels, h⟩ := Option.bind_eq_some_iff.mp h
    obtain rfl : label :: labels' = labels := by simpa using h
    rw [List.mapM_cons, labelAt_eq hlabel, pure_bind, ih hlabels, pure_bind]

/-- Where no look-up of an id fails, no index is past the end. -/
theorem contextAt_eq {context : PathContext} (h : p.context? t = some context) :
    p.contextAt t = pure context := by
  obtain ⟨startToken, hstart, h⟩ := Option.bind_eq_some_iff.mp h
  obtain ⟨shape, hshape, h⟩ := Option.bind_eq_some_iff.mp h
  obtain ⟨finishToken, hfinish, h⟩ := Option.bind_eq_some_iff.mp h
  obtain rfl : { startToken, shape, finishToken } = context := by simpa using h
  obtain ⟨upward, hupward, hshape⟩ := Option.bind_eq_some_iff.mp hshape
  obtain ⟨top, htop, hshape⟩ := Option.bind_eq_some_iff.mp hshape
  obtain ⟨downward, hdownward, hshape⟩ := Option.bind_eq_some_iff.mp hshape
  obtain rfl : { upward, top, downward } = shape := by simpa using hshape
  obtain ⟨first, hfirst, rfl⟩ := Option.map_eq_some_iff.mp hstart
  obtain ⟨last, hlast, rfl⟩ := Option.map_eq_some_iff.mp hfinish
  simp only [contextAt, entry_eq hfirst, mapM_labelAt_eq hupward, labelAt_eq htop,
    mapM_labelAt_eq hdownward, entry_eq hlast, pure_bind]

end LeafPath

/-! ## §5: Any arena -/

namespace Arena

/-- The search by places goes through a tree and gives what the search with lists gives. -/
structure RunsAs (c : Cursor) (s : Search) : Prop where
  tree : c.tree = s.tree
  leaves : c.leaves = s.tree.leaves.toArray
  depths : c.depths = s.tree.depths
  /-- From any two nodes the climbs end at one node, which exists. -/
  ascend : ∀ a < c.tree.size, ∀ b < c.tree.size, ∃ r, c.tree.ascend c.depths a b = pure r ∧
    r.a = r.b ∧ r.a < c.tree.size
  nth : ∀ calls, ∃ c', c.nth calls = pure ((s.after calls).next.1, c')
  /-- The calls come to an end. -/
  collect : c.collect #[] = pure s.toList.toArray
  contextAt : ∀ p ∈ s.toList, ∃ context, p.context? s.tree = some context ∧
    p.contextAt c.tree = pure context

/-- Places that run over a tree go as a search does if the same paths are left for both. -/
theorem Rooted.runsAs {s : Search} (h : s.tree.Rooted root below)
    (hall : ∀ id < s.tree.size, id ∈ (Forest.cons root below .nil).ids)
    (hpaths : s.left = s.tree.pathsWithin s.bounds) {c : Cursor} (hc : c.InTree)
    (htree : c.tree = s.tree) (hleft : c.left = s.left) : RunsAs c s where
  tree := htree
  leaves := by rw [hc.leaves, htree]
  depths := by rw [hc.depths, htree]
  ascend a ha b hb := by
    rw [htree] at ha hb
    rw [hc.depths, htree]
    obtain ⟨_, hadeep⟩ := Forest.exists_stop_of_mem_ids 0 (hall a ha)
    obtain ⟨_, hbdeep⟩ := Forest.exists_stop_of_mem_ids 0 (hall b hb)
    obtain ⟨r, hascend, hmeet, hlt, -⟩ := (h.deep_of_mem_stops hadeep).exists_ascend
      (h.deep_of_mem_stops hbdeep) (h.measures_depths hall)
    exact ⟨r, hascend, hmeet, hlt⟩
  nth calls := by
    obtain ⟨c', hnth⟩ := hc.exists_nth calls
    exact ⟨c', by rw [hnth, hleft, s.next_after]⟩
  collect := by rw [hc.collect, hleft, s.toList_eq, Array.empty_append]
  contextAt p hp := by
    rw [s.toList_eq, hpaths] at hp
    obtain ⟨context, hcontext⟩ := h.exists_context? hp
    rw [htree]
    exact ⟨context, hcontext, LeafPath.contextAt_eq hcontext⟩

/-- **A search by places of any arena**: the check names a defect, or the tables of leaves
and depths get filled, and from there every call gives what the search gives, to the last
path. No index is past the end of its table on the way, no climb goes on from a node without
a parent, and all loops end. -/
theorem cursor_runs (t : Arena) (bounds : PathBounds) :
    (∃ d, t.check = .error d ∧ t.search bounds = .error d ∧ t.cursor bounds = pure (.error d)) ∨
      t.check = .ok () ∧ ∃ c s, t.search bounds = .ok s ∧ t.cursor bounds = pure (.ok c) ∧
        s.tree = t ∧ RunsAs c s := by
  cases hcheck : t.check with
  | error d => exact .inl ⟨d, rfl, by rw [search, hcheck], by rw [cursor, hcheck]⟩
  | ok =>
    right
    obtain ⟨root, below, h, hall⟩ := check_eq_ok_iff.mp hcheck
    obtain ⟨s, hsearch, rfl, rfl, hpaths⟩ := h.left_search hcheck bounds
    let c : Cursor :=
      { tree := s.tree, leaves := s.tree.leaves.toArray, depths := s.tree.depths
        bounds := s.bounds }
    have hc : c.InTree := ⟨hcheck, rfl, rfl, Nat.zero_lt_one⟩
    -- the two searches have the same pairs before them, one by places and one by lists
    have hleft : c.left = s.left := by
      rw [hpaths, pathsWithin, h.named, Cursor.left, Cursor.pairs_of_eq rfl]
      simp only [leafPairs_eq_pairsFrom, ← h.leaves_eq]
      rfl
    refine ⟨rfl, c, s, hsearch, ?_, rfl, h.runsAs hall hpaths hc rfl hleft⟩
    simp only [cursor, hcheck, h.leafTable, h.depthTable, pure_bind]
    rfl

/-- Depths that do not fit the tree send the climb past the root. -/
example : (Edit.build [.addNode "R" none, .addNode "A" none]).climbTo #[1, 0] 1 0 #[] =
    throw (.noParent 0) := by
  have hroot : (Edit.build [.addNode "R" none, .addNode "A" none]).nodes[0]? =
      some { label := "R" } := rfl
  rw [climbTo_eq, parentOf, entry_eq hroot]
  simp [entry]

end Arena

end PathCorpus
