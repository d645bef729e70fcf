import PathCorpus.Arena.Edit
import PathCorpus.LeafPath.Search
import PathCorpus.Proofs.LeafPath.Joining

/-!
# A search finds exactly the paths within its bounds

What a search has still to give is a list: the pairs of leaves that it has not come to, each with
its path if that is within the height bound. One call of `next` gives the head of this list and
leaves the tail, whatever it skips on the way. So the calls of `next` give the list that the search
started with, one element each, and nothing ever after.

On a tree the list at the start is the one that `Arena.pathsWithin` describes: by pairs of places
in the order of leaves, and by chains of ancestors.

## Main statements

- `Search.next_eq`: what one call gives and what it leaves.
- `Arena.search_exact`: the paths of a search are those of the description, in its order.
-/

namespace PathCorpus

/-! ## §1: Pairs of leaves by place -/

/-- The pairs of places `i < j` in a list of length `n` that are no further apart than the width
allows, the first places in order and for each of them the second ones in order. -/
def placePairs (width : Limit) (n : Nat) : List (Fin n × Fin n) :=
  (List.finRange n).flatMap fun i =>
    ((List.finRange n).filter fun j => decide (i < j ∧ width.Admits (j.val - i.val))).map (i, ·)

/-- The pairs of elements at these places. -/
def leafPairs (width : Limit) (leaves : List Nat) : List (Nat × Nat) :=
  (placePairs width leaves.length).map fun (i, j) => (leaves[i], leaves[j])

namespace Arena

/-- The leaves with a token to show, in the recursive order from a root. -/
def leavesBelow (t : Arena) (root : Nat) : List Nat :=
  (t.preOrderWithin t.size root).filter t.isTerminal

/-- The paths of an arena within bounds: over the pairs of leaves that are close enough, the
path through the lowest common ancestor if it is short enough. -/
def pathsWithin (t : Arena) (bounds : PathBounds) : List LeafPath :=
  match t.root? with
  | none => []
  | some root =>
    (leafPairs bounds.maxWidth (t.leavesBelow root)).filterMap fun (a, b) =>
      (t.joining? a b).filter fun p => bounds.maxHeight.Admits p.height

end Arena

/-! ## §2: Pairs of leaves as the search takes them -/

/-- The pairs whose starts are in a list of leaves, each with the leaves after it as far as the
width reaches. -/
def pairsFrom (width : Limit) : (starts : List Nat) → List (Nat × Nat)
  | [] => []
  | start :: later => (width.take later).map (start, ·) ++ pairsFrom width later

/-- The pairs that are left when the first start has only the partners `ahead`. -/
def pairsLeft (width : Limit) : (starts ahead : List Nat) → List (Nat × Nat)
  | [], _ => []
  | start :: later, ahead => ahead.map (start, ·) ++ pairsFrom width later

theorem pairsLeft_take_tail (width : Limit) (starts : List Nat) :
    pairsLeft width starts (width.take starts.tail) = pairsFrom width starts := by
  cases starts with
  | nil => rfl
  | cons start later => rfl

/-- The elements of a list at the places that the width reaches from right before it. -/
private theorem map_filter_finRange (width : Limit) (xs : List Nat) :
    ((List.finRange xs.length).filter fun j => decide (width.Admits (j.val + 1))).map
      (fun j => xs[j]) = width.take xs := by
  cases width with
  | unlimited =>
    apply List.ext_getElem
    · simp [Limit.take]
    · intro i h₁ h₂
      simp [Limit.take]
  | atMost n =>
    -- both sides stop after `n` elements, one of them by counting and the other by place
    simp only [Limit.admits_atMost, Limit.take]
    induction xs generalizing n with
    | nil => simp
    | cons x xs ih =>
      cases n with
      | zero => simp
      | succ n =>
        rw [List.take_succ_cons, ← ih n]
        simp only [List.length_cons, List.finRange_succ, List.filter_cons]
        simp [List.filter_map, Function.comp_def]

/-- Going through the leaves from the front gives the pairs by place. -/
theorem leafPairs_eq_pairsFrom (width : Limit) (leaves : List Nat) :
    leafPairs width leaves = pairsFrom width leaves := by
  induction leaves with
  | nil => rfl
  | cons a later ih =>
    rw [pairsFrom, ← ih, ← map_filter_finRange]
    -- the place of `a` comes first, and every other place is one further than in `later`
    simp only [leafPairs, placePairs, List.length_cons, List.finRange_succ, List.flatMap_cons,
      List.map_append, List.map_flatMap, List.flatMap_map]
    congr 1
    · simp [List.filter_map, Function.comp_def]
    · simp [List.filter_map, Function.comp_def]

/-! ## §3: One call after another -/

namespace Search

/-- The paths that a search has not given yet. -/
def left (s : Search) : List LeafPath :=
  (pairsLeft s.bounds.maxWidth s.starts s.ahead).filterMap fun (a, b) => s.admissible? a b

/-- The search after a number of calls. -/
def after (s : Search) : (calls : Nat) → Search
  | 0 => s
  | calls + 1 => s.next.2.after calls

private theorem nextFrom_eq (path? : Nat → Nat → Option LeafPath) (width : Limit)
    (starts ahead : List Nat) :
    (nextFrom path? width starts ahead).1 =
        ((pairsLeft width starts ahead).filterMap fun (a, b) => path? a b).head? ∧
      ((pairsLeft width (nextFrom path? width starts ahead).2.1
          (nextFrom path? width starts ahead).2.2).filterMap fun (a, b) => path? a b) =
        ((pairsLeft width starts ahead).filterMap fun (a, b) => path? a b).tail := by
  fun_induction nextFrom path? width starts ahead with
  | case1 ahead => simp [pairsLeft]
  | case2 start later ih =>
    -- the next start takes over, with all its partners
    rwa [pairsLeft_take_tail] at ih
  | case3 start later finish ahead p hp => simp [pairsLeft, hp]
  | case4 start later finish ahead hp ih => simpa [pairsLeft, hp] using ih

/-- One call gives the first path that is left, and leaves the others. -/
theorem next_eq (s : Search) : s.next.1 = s.left.head? ∧ s.next.2.left = s.left.tail :=
  nextFrom_eq s.admissible? s.bounds.maxWidth s.starts s.ahead

theorem left_after (s : Search) (calls : Nat) : (s.after calls).left = s.left.drop calls := by
  induction calls generalizing s with
  | zero => rfl
  | succ calls ih => rw [after, ih, s.next_eq.2, List.drop_tail]

theorem next_after (s : Search) (calls : Nat) : (s.after calls).next.1 = s.left[calls]? := by
  rw [(s.after calls).next_eq.1, left_after, List.head?_drop]

private theorem toList_takeInto (found : Array LeafPath) (n : Nat) (s : Search) :
    (takeInto found n s).toList = found.toList ++ s.left.take n := by
  induction n generalizing found s with
  | zero => simp [takeInto]
  | succ n ih =>
    obtain ⟨hhead, htail⟩ := s.next_eq
    unfold takeInto
    split
    next p s' hnext =>
      simp only [hnext] at hhead htail
      cases hleft : s.left with
      | nil => simp [hleft] at hhead
      | cons q rest =>
        rw [hleft, List.head?_cons, Option.some.injEq] at hhead
        rw [hleft, List.tail_cons] at htail
        simp [ih, htail, hhead]
    next s' hnext =>
      have : s.left = [] := by simpa [hnext] using hhead.symm
      simp [this]

theorem take_eq (s : Search) (n : Nat) : s.take n = s.left.take n := by
  simp [take, toList_takeInto]

private theorem length_pairsFrom_le (width : Limit) (starts : List Nat) :
    (pairsFrom width starts).length ≤ starts.length * starts.length := by
  induction starts with
  | nil => simp [pairsFrom]
  | cons start later ih =>
    have hcap : (width.take later).length ≤ later.length := by
      cases width with
      | atMost n => exact List.length_take_le' n later
      | unlimited => exact Nat.le_refl _
    simp only [pairsFrom, List.length_append, List.length_map, List.length_cons]
    have hsquare : (later.length + 1) * (later.length + 1) =
        later.length * later.length + later.length + (later.length + 1) := by
      rw [Nat.add_mul, Nat.mul_add]
      omega
    omega

theorem length_left_le_pairBound (s : Search) : s.left.length ≤ s.pairBound := by
  apply Nat.le_trans (List.length_filterMap_le _ _)
  rw [pairBound]
  cases s.starts with
  | nil => simp [pairsLeft]
  | cons start later =>
    have hle := length_pairsFrom_le s.bounds.maxWidth later
    have hsquare : later.length * later.length ≤ (later.length + 1) * (later.length + 1) :=
      Nat.mul_le_mul (Nat.le_succ _) (Nat.le_succ _)
    simp only [pairsLeft, List.length_append, List.length_map, List.length_cons]
    omega

theorem toList_eq (s : Search) : s.toList = s.left := by
  rw [toList, take_eq, List.take_of_length_le s.length_left_le_pairBound]

/-- The paths up to a limit. -/
theorem upTo_eq (s : Search) (limit : Limit) : s.upTo limit = limit.take s.toList := by
  cases limit with
  | atMost n => rw [upTo, take_eq, toList_eq, Limit.take]
  | unlimited => rfl

end Search

/-! ## §4: A search of a tree -/

namespace Arena

variable {t : Arena} {root : Nat} {below : Forest}

theorem Rooted.leaves_eq (h : t.Rooted root below) : t.leaves = t.leavesBelow root := by
  rw [leaves, leavesBelow, h.preOrder_eq_preOrderWithin]

/-- A leaf is on a chain to the root, of the length that the table of depths gives. -/
theorem Rooted.exists_depth_of_mem_leaves (h : t.Rooted root below) {a : Nat}
    (ha : a ∈ t.leaves) : ∃ d, t.depths[a]? = some d ∧ t.Deep a d := by
  rw [leaves, h.preOrder] at ha
  obtain ⟨d, hstop⟩ := Forest.exists_stop_of_mem_ids 0 (List.mem_filter.mp ha).1
  exact ⟨d, h.getElem?_depths hstop, h.deep_of_mem_stops hstop⟩

/-- The search judges a pair of leaves as the description does. That the depths differ by too much
already rules the path out, since it has at least so many links. -/
theorem Rooted.admissible?_eq (h : t.Rooted root below) {s : Search} (htree : s.tree = t)
    (hdepths : s.depths = t.depths) {a b : Nat} (ha : a ∈ t.leaves) (hb : b ∈ t.leaves) :
    s.admissible? a b =
      (t.joining? a b).filter fun p => s.bounds.maxHeight.Admits p.height := by
  obtain ⟨d, hd, hadeep⟩ := h.exists_depth_of_mem_leaves ha
  obtain ⟨e, he, hbdeep⟩ := h.exists_depth_of_mem_leaves hb
  obtain ⟨p, hp, _, _, _, hheight⟩ := exists_joining? hadeep hbdeep
  simp only [Search.admissible?, htree, hdepths, hd, he, pathBetween?_eq_joining? hadeep hbdeep]
  split
  · rfl
  next hshort =>
    have hlong : ¬ s.bounds.maxHeight.Admits p.height := fun hadmits =>
      hshort (hadmits.mono hheight)
    rw [hp, Option.filter_some, if_neg (by simpa using hlong)]

theorem mem_of_mem_pairsFrom {width : Limit} {leaves : List Nat} {pair : Nat × Nat}
    (h : pair ∈ pairsFrom width leaves) : pair.1 ∈ leaves ∧ pair.2 ∈ leaves := by
  induction leaves with
  | nil => simp [pairsFrom] at h
  | cons start later ih =>
    rcases List.mem_append.mp h with h | h
    · obtain ⟨b, hb, rfl⟩ := List.mem_map.mp h
      exact ⟨List.mem_cons_self, List.mem_cons_of_mem _ (Limit.mem_of_mem_take hb)⟩
    · exact ⟨List.mem_cons_of_mem _ (ih h).1, List.mem_cons_of_mem _ (ih h).2⟩

/-- At the start of a search of a tree, what is left is what the description gives. -/
theorem Rooted.left_search (h : t.Rooted root below) (hcheck : t.check = .ok ())
    (bounds : PathBounds) :
    ∃ s, t.search bounds = .ok s ∧ s.tree = t ∧ s.bounds = bounds ∧
      s.left = t.pathsWithin bounds := by
  refine ⟨_, by simp only [search, hcheck]; rfl, rfl, rfl, ?_⟩
  simp only [Search.left, Search.enter, pairsLeft_take_tail, pathsWithin, h.named,
    leafPairs_eq_pairsFrom, ← h.leaves_eq]
  apply List.filterMap_congr
  intro pair hpair
  -- both judge the same pairs, and a pair of leaves in the same way
  obtain ⟨ha, hb⟩ := mem_of_mem_pairsFrom hpair
  exact h.admissible?_eq rfl rfl ha hb

/-! ## §5: The contexts of paths -/

theorem exists_label?_of_lt {id : Nat} (h : id < t.size) : ∃ label, t.label? id = some label := by
  obtain ⟨n, hn⟩ := exists_node_of_lt h
  exact ⟨n.label, by simp [label?, hn]⟩

theorem exists_tokenText?_of_lt {id : Nat} (h : id < t.size) :
    ∃ token, t.tokenText? id = some token := by
  obtain ⟨n, hn⟩ := exists_node_of_lt h
  exact ⟨n.tokenText, by simp [tokenText?, hn]⟩

theorem exists_labels_of_lt {ids : List Nat} (h : ∀ id ∈ ids, id < t.size) :
    ∃ labels, ids.mapM t.label? = some labels := by
  induction ids with
  | nil => exact ⟨[], rfl⟩
  | cons id ids ih =>
    rw [List.forall_mem_cons] at h
    obtain ⟨label, hlabel⟩ := exists_label?_of_lt h.1
    obtain ⟨labels, hlabels⟩ := ih h.2
    exact ⟨label :: labels, by simp [List.mapM_cons, hlabel, hlabels]⟩

/-- A path through existing nodes has a context. -/
theorem exists_context?_of_lt {p : LeafPath} (hstart : p.start < t.size)
    (hnodes : ∀ id ∈ p.nodes, id < t.size) (hfinish : p.finish < t.size) :
    ∃ context, p.context? t = some context := by
  simp only [LeafPath.nodes, List.forall_mem_append, List.forall_mem_cons] at hnodes
  obtain ⟨hup, htop, hdown⟩ := hnodes
  obtain ⟨startToken, hstartToken⟩ := exists_tokenText?_of_lt hstart
  obtain ⟨finishToken, hfinishToken⟩ := exists_tokenText?_of_lt hfinish
  obtain ⟨upward, hupward⟩ := exists_labels_of_lt hup
  obtain ⟨top, htopLabel⟩ := exists_label?_of_lt htop
  obtain ⟨downward, hdownward⟩ := exists_labels_of_lt hdown
  have hshape : p.shape? t = some { upward, top, downward } := by
    simp [LeafPath.shape?, hupward, htopLabel, hdownward]
  exact ⟨{ startToken, shape := { upward, top, downward }, finishToken }, by
    simp [LeafPath.context?, hstartToken, hshape, hfinishToken]⟩

/-- The nodes of a path exist: it joins two leaves, and all its nodes are above one of them. -/
theorem Rooted.lt_size_of_mem_pathsWithin (h : t.Rooted root below) {bounds : PathBounds}
    {p : LeafPath} (hp : p ∈ t.pathsWithin bounds) :
    p.start < t.size ∧ (∀ id ∈ p.nodes, id < t.size) ∧ p.finish < t.size := by
  simp only [pathsWithin, h.named, leafPairs_eq_pairsFrom, ← h.leaves_eq] at hp
  obtain ⟨⟨a, b⟩, hpair, hp⟩ := List.mem_filterMap.mp hp
  obtain ⟨hjoining, _⟩ := Option.filter_eq_some_iff.mp hp
  obtain ⟨ha, hb⟩ := mem_of_mem_pairsFrom hpair
  obtain ⟨d, _, hadeep⟩ := h.exists_depth_of_mem_leaves ha
  obtain ⟨e, _, hbdeep⟩ := h.exists_depth_of_mem_leaves hb
  obtain ⟨top, htop, rfl⟩ := Option.map_eq_some_iff.mp hjoining
  refine ⟨hadeep.id_lt_size, fun id hid => ?_, hbdeep.id_lt_size⟩
  simp only [LeafPath.nodes, List.mem_append, List.mem_cons, List.mem_reverse] at hid
  rcases hid with hid | rfl | hid
  · exact hadeep.lt_size_of_mem_ancestors ((List.takeWhile_subset _) hid)
  · exact hadeep.lt_size_of_mem_ancestors (List.mem_of_find?_eq_some htop)
  · exact hbdeep.lt_size_of_mem_ancestors ((List.takeWhile_subset _) hid)

/-- On a tree the look-ups for the context of a path do not fail. -/
theorem Rooted.exists_context? (h : t.Rooted root below) {bounds : PathBounds} {p : LeafPath}
    (hp : p ∈ t.pathsWithin bounds) : ∃ context, p.context? t = some context := by
  obtain ⟨hstart, hnodes, hfinish⟩ := h.lt_size_of_mem_pathsWithin hp
  exact exists_context?_of_lt hstart hnodes hfinish

/-! ## §6: The whole search -/

/-- **A search is exact**: on a tree it gives the paths within its bounds, all of them, in the
order of their pairs, one with each call and nothing after the last. Any two leaves have a path,
and its top is their lowest common ancestor. -/
theorem search_exact (t : Arena) (bounds : PathBounds) (hcheck : t.check = .ok ()) :
    ∃ root s, t.root? = some root ∧ t.search bounds = .ok s ∧
      s.toList = t.pathsWithin bounds ∧
      (∀ n, (s.after n).next.1 = (t.pathsWithin bounds)[n]?) ∧
      ∀ a ∈ t.leavesBelow root, ∀ b ∈ t.leavesBelow root, ∃ p, t.joining? a b = some p ∧
        t.IsLowestCommon a b p.top := by
  obtain ⟨root, below, h, _⟩ := check_eq_ok_iff.mp hcheck
  obtain ⟨s, hsearch, _, _, hleft⟩ := h.left_search hcheck bounds
  refine ⟨root, s, h.named, hsearch, by rw [s.toList_eq, hleft], fun n => ?_, ?_⟩
  · rw [s.next_after, hleft]
  · intro a ha b hb
    rw [← h.leaves_eq] at ha hb
    obtain ⟨d, _, hadeep⟩ := h.exists_depth_of_mem_leaves ha
    obtain ⟨e, _, hbdeep⟩ := h.exists_depth_of_mem_leaves hb
    obtain ⟨p, hp, _, _, hlowest, _⟩ := exists_joining? hadeep hbdeep
    exact ⟨p, hp, hlowest⟩

/-- A tree with leaves of different depths, and only neighbours among them allowed. -/
theorem search_exact_uneven :
    let t := Edit.build [.addNode "R" none, .addChild 0 "A" (some "a"), .addChild 0 "B" none,
      .addChild 2 "C" (some "c"), .addChild 2 "D" (some "d")]
    t.check = .ok () ∧ ∃ s,
      t.search { maxHeight := .atMost 3, maxWidth := .atMost 1 } = .ok s ∧
        s.toList = [⟨1, [1], 0, [2, 3], 3⟩, ⟨3, [3], 2, [4], 4⟩] := by
  intro t
  have hcheck : t.check = .ok () := by decide +kernel
  obtain ⟨_, s, _, hsearch, hlist, _⟩ :=
    search_exact t { maxHeight := .atMost 3, maxWidth := .atMost 1 } hcheck
  refine ⟨hcheck, s, hsearch, hlist.trans ?_⟩
  decide +kernel

end Arena

end PathCorpus
