import PathCorpus.Proofs.Arena.Tree
import PathCorpus.Proofs.Arena.Unbounded

/-!
# What a walk finds on a walkable arena

On a walkable arena everything below the root is a tree, and there may be other nodes, linked in
any way, even to nodes of the tree. No walk from the root comes to them. So a walk ends, and it
finds each node that the root leads to once, in the order of the recursion over children; the
nodes that it does not find are those that the check counts as unreached. The table of depths
tells for each node the number of links down to it.

## Main statements

- `Arena.isWalkable_iff`: a walkable arena has a root over a forest.
- `Arena.Rooted.check`: all that the check can find there.
- `Arena.LaysOut.mem_stops_iff`: the stops of a walk are where child lists lead.
- `Arena.walks_of_isWalkable`: the walks of a walkable arena.
-/

namespace PathCorpus

namespace Arena

variable {t : Arena} {root id depth : Nat} {below : Forest}

/-! ## §1: Which arenas are walkable -/

private theorem checkChildren_ne_unreached (node : Nat) (ids : List Nat) (count : Nat) :
    t.checkChildren node ids ≠ .error (.unreached count) := by
  induction ids with
  | nil => simp [checkChildren]
  | cons id ids ih =>
    rw [checkChildren]
    split
    · dsimp only
      split
      · cases hrest : t.checkChildren node ids with
        | ok children => simp [Except.map]
        | error d =>
          rw [hrest] at ih
          simpa [Except.map] using ih
      · simp
    · simp

private theorem checkFrom_ne_unreached (pending : List (Fin t.size)) (marks : t.Marks)
    (count : Nat) : t.checkFrom pending marks ≠ .error (.unreached count) := by
  fun_induction checkFrom t pending marks with
  | case1 => simp
  | case2 => simp
  | case3 marks i pending _ d hd =>
    intro h
    cases h
    exact checkChildren_ne_unreached _ _ count hd
  | case4 _ _ _ _ _ _ ih => exact ih

/-- That nodes are unreached is said only after the walk. -/
theorem checkLinks_ne_unreached (t : Arena) (count : Nat) :
    t.checkLinks ≠ .error (.unreached count) := by
  unfold checkLinks
  split
  · simp
  · split
    · simp
    · split
      · split
        · simp
        · exact checkFrom_ne_unreached _ _ count
      · simp

/-- The check marks what a walk finds, and the other nodes are those without a mark. -/
theorem Rooted.exists_checkLinks (h : t.Rooted root below) :
    ∃ marks, t.checkLinks = .ok marks ∧ t.preOrder.length + marks.unmarked = t.size := by
  let found := (Forest.cons root below .nil).ids
  let marks : t.Marks := .ofFn fun i => decide (i.val ∈ found)
  have hmarks : ∀ i : Fin t.size, marks.get i = true ↔ i.val ∈ found := by
    intro i
    show marks[i.val] = true ↔ _
    simp [marks]
  have hmissing : ∀ id, id ∈ marks.missing.map Fin.val ↔ id < t.size ∧ id ∉ found := by
    intro id
    simp only [Marks.missing, List.mem_map, List.mem_filter, List.mem_finRange, true_and,
      beq_iff_eq, ← Bool.not_eq_true, hmarks]
    exact ⟨fun ⟨i, hi, he⟩ => he ▸ ⟨i.isLt, hi⟩, fun ⟨hlt, hid⟩ => ⟨⟨id, hlt⟩, hid, rfl⟩⟩
  have hnodup : (found ++ marks.missing.map Fin.val).Nodup := by
    refine List.nodup_append'.mpr ⟨h.nodup, ?_, fun id hid hid' => ((hmissing id).mp hid').2 hid⟩
    exact ((List.nodup_finRange t.size).filter _).map fun _ _ => Fin.ext
  -- together they are all ids of the arena
  have hperm : (found ++ marks.missing.map Fin.val).Perm (List.range t.size) := by
    rw [List.perm_ext_iff_of_nodup hnodup List.nodup_range]
    intro id
    rw [List.mem_append, hmissing, List.mem_range]
    have hlt := h.laysOut.lt_size id
    tauto
  refine ⟨marks, checkLinks_eq_ok_iff.mpr ⟨root, below, h, hmarks⟩, ?_⟩
  have hlength := hperm.length_eq
  rw [List.length_append, List.length_map, marks.length_missing, List.length_range] at hlength
  rw [h.preOrder, hlength]

/-- All that the check can find there is that nodes are unreached. -/
theorem Rooted.check (h : t.Rooted root below) : t.check =
    if t.preOrder.length = t.size then .ok ()
    else .error (.unreached (t.size - t.preOrder.length)) := by
  obtain ⟨marks, hlinks, hlength⟩ := h.exists_checkLinks
  have hunmarked : marks.unmarked = t.size - t.preOrder.length := by omega
  have hall : t.size - t.preOrder.length = 0 ↔ t.preOrder.length = t.size := by omega
  rw [Arena.check, hlinks]
  simp only [hunmarked, hall]

/-- **What is walkable**: a root over a forest, whatever else the arena holds. -/
theorem isWalkable_iff : t.isWalkable = true ↔ ∃ root below, t.Rooted root below := by
  constructor
  · intro h
    cases hlinks : t.checkLinks with
    | ok marks =>
      obtain ⟨root, below, hrooted, -⟩ := checkLinks_eq_ok_iff.mp hlinks
      exact ⟨root, below, hrooted⟩
    | error d =>
      -- a defect of the links is not that nodes are unreached, so it makes an arena unwalkable
      have hcheck : t.check = .error d := by rw [check, hlinks]
      rw [isWalkable, hcheck] at h
      split at h
      next hok => cases hok
      next count hd =>
        cases hd
        exact absurd hlinks (t.checkLinks_ne_unreached count)
      next => cases h
  · rintro ⟨root, below, h⟩
    rw [isWalkable, h.check]
    by_cases hall : t.preOrder.length = t.size <;> simp [hall]

/-! ## §2: What the root leads to -/

/-- Child lists lead from `top` down to a node by a number of links. -/
inductive ReachesIn (t : Arena) (top : Nat) : (links id : Nat) → Prop
  | refl : ReachesIn t top 0 top
  | tail {links id child : Nat} : t.ReachesIn top links id → t.Lists id child →
    ReachesIn t top (links + 1) child

theorem ReachesIn.head {top child links id : Nat} (h : t.ReachesIn child links id)
    (hlists : t.Lists top child) : t.ReachesIn top (links + 1) id := by
  induction h with
  | refl => exact .tail .refl hlists
  | tail _ hlists' ih => exact .tail ih hlists'

theorem reaches_iff {top id : Nat} : t.Reaches top id ↔ ∃ links, t.ReachesIn top links id := by
  constructor
  · intro h
    induction h with
    | refl => exact ⟨0, .refl⟩
    | tail _ hlists ih =>
      obtain ⟨links, hlinks⟩ := ih
      exact ⟨links + 1, .tail hlinks hlists⟩
  · rintro ⟨links, h⟩
    induction h with
    | refl => exact .refl
    | tail _ hlists ih => exact ih.tail hlists

/-- Where there is a stop, its children have theirs. -/
theorem LaysOut.child_mem_stops {f : Forest} (h : t.LaysOut f) {s : Stop} (hs : s ∈ f.stops depth)
    {child : Nat} (hlists : t.Lists s.id child) : ⟨child, s.depth + 1⟩ ∈ f.stops depth := by
  induction f generalizing depth with
  | nil => simp [Forest.stops] at hs
  | cons id below beside ihBelow ihBeside =>
    obtain ⟨⟨_, hchildren, _⟩, hbelow, hbeside⟩ := h
    simp only [Forest.stops, List.mem_cons, List.mem_append] at hs ⊢
    rcases hs with rfl | hs | hs
    · have htop : child ∈ below.tops := by rwa [← hchildren]
      exact .inr (.inl (Forest.mem_stops_of_mem_tops (depth + 1) htop))
    · exact .inr (.inl (ihBelow hbelow hs))
    · exact .inr (.inr (ihBeside hbeside hs))

/-- A stop is found below one of the tops. -/
theorem LaysOut.exists_reachesIn {f : Forest} (h : t.LaysOut f) {s : Stop}
    (hs : s ∈ f.stops depth) :
    ∃ top ∈ f.tops, ∃ links, s.depth = depth + links ∧ t.ReachesIn top links s.id := by
  induction f generalizing depth with
  | nil => simp [Forest.stops] at hs
  | cons id below beside ihBelow ihBeside =>
    obtain ⟨⟨_, hchildren, _⟩, hbelow, hbeside⟩ := h
    simp only [Forest.stops, List.mem_cons, List.mem_append] at hs
    rcases hs with rfl | hs | hs
    · exact ⟨id, List.mem_cons_self, 0, rfl, .refl⟩
    · -- the way to it starts with the link to a child
      obtain ⟨top, htop, links, hdepth, hreaches⟩ := ihBelow hbelow hs
      have hlists : t.Lists id top := by rwa [Lists, hchildren]
      exact ⟨id, List.mem_cons_self, links + 1, by omega, hreaches.head hlists⟩
    · obtain ⟨top, htop, hreaches⟩ := ihBeside hbeside hs
      exact ⟨top, List.mem_cons_of_mem _ htop, hreaches⟩

/-- The stops of a tree are where child lists lead from its top. -/
theorem LaysOut.mem_stops_iff {top : Nat} (h : t.LaysOut (.cons top below .nil)) {s : Stop} :
    s ∈ (Forest.cons top below .nil).stops 0 ↔ t.ReachesIn top s.depth s.id := by
  constructor
  · intro hs
    obtain ⟨top', htop, links, hdepth, hreaches⟩ := h.exists_reachesIn hs
    obtain rfl : top' = top := by simpa [Forest.tops] using htop
    rwa [hdepth, Nat.zero_add]
  · intro hreaches
    -- the fields of a stop are no variables to do induction on
    suffices ∀ links id, t.ReachesIn top links id →
        ⟨id, links⟩ ∈ (Forest.cons top below .nil).stops 0 from this _ _ hreaches
    intro links id hreaches
    induction hreaches with
    | refl => simp [Forest.stops]
    | tail _ hlists ih => exact h.child_mem_stops ih hlists

/-- The ids of a tree are those that its top leads to. -/
theorem LaysOut.mem_ids_iff {top : Nat} (h : t.LaysOut (.cons top below .nil)) :
    id ∈ (Forest.cons top below .nil).ids ↔ t.Reaches top id := by
  rw [reaches_iff]
  constructor
  · intro hid
    obtain ⟨depth, hs⟩ := Forest.exists_stop_of_mem_ids 0 hid
    exact ⟨depth, h.mem_stops_iff.mp hs⟩
  · rintro ⟨links, hreaches⟩
    exact Forest.mem_ids_of_mem_stops ((h.mem_stops_iff (s := ⟨id, links⟩)).mpr hreaches)

theorem Rooted.mem_preOrder_iff (h : t.Rooted root below) :
    id ∈ t.preOrder ↔ t.Reaches root id := by
  rw [h.preOrder, h.laysOut.mem_ids_iff]

/-! ## §3: The walks -/

/-- A node that no walk finds has the depth zero. -/
theorem Rooted.getElem?_depths_of_notMem (h : t.Rooted root below) (hlt : id < t.size)
    (hid : id ∉ t.preOrder) : t.depths[id]? = some 0 := by
  have hids : ((Forest.cons root below .nil).stops 0).map (·.id) = t.preOrder := by
    rw [Forest.map_id_stops, h.preOrder]
  rw [depths, h.walk (Nat.le_refl _)]
  -- the writes go to the places of the stops, and this is none of them
  rw [(getElem?_writeDepths _ _ (hids ▸ h.preOrder ▸ h.nodup) id).2 (hids ▸ hid)]
  simp [hlt]

/-- What the walks find that start at the root. -/
structure WalksFrom (t : Arena) (root : Nat) : Prop where
  /-- The walk is over after as many steps as there are nodes. -/
  preOrderUpTo : ∀ steps, t.size ≤ steps → t.preOrderUpTo steps = t.preOrder
  /-- It comes to its end of its own accord. -/
  orderTable : t.orderTable = pure t.preOrder.toArray
  /-- It goes to a node, and then through the subtrees of the children in their order. -/
  preOrderWithin : ∀ levels, t.size ≤ levels → t.preOrderWithin levels root = t.preOrder
  nodup : t.preOrder.Nodup
  mem_preOrder_iff : ∀ id, id ∈ t.preOrder ↔ t.Reaches root id
  leafTable : t.leafTable = pure t.leaves.toArray
  leaves_sublist : t.leaves.Sublist t.preOrder
  mem_leaves_iff : ∀ id, id ∈ t.leaves ↔ t.Reaches root id ∧ ∃ n token,
    t.node? id = some n ∧ n.children = [] ∧ n.token? = some token ∧ token ≠ ""
  depthTable : t.depthTable = pure t.depths
  size_depths : t.depths.size = t.size
  getElem?_depths : ∀ links id, t.ReachesIn root links id → t.depths[id]? = some links
  getElem?_depths_unreached : ∀ id < t.size, ¬ t.Reaches root id → t.depths[id]? = some 0

theorem isTerminal_iff : t.isTerminal id = true ↔ ∃ n token,
    t.node? id = some n ∧ n.children = [] ∧ n.token? = some token ∧ token ≠ "" := by
  simp only [isTerminal, Option.any_eq_true, Node.isTerminal, Node.isLeaf, Node.tokenText,
    Bool.and_eq_true, List.isEmpty_iff, Bool.not_eq_true', String.isEmpty_eq_false_iff]
  constructor
  · rintro ⟨n, hn, hchildren, htoken⟩
    cases hn' : n.token? with
    | none => simp [hn'] at htoken
    | some token => exact ⟨n, token, hn, hchildren, hn', by simpa [hn'] using htoken⟩
  · rintro ⟨n, token, hn, hchildren, htoken, hne⟩
    exact ⟨n, hn, hchildren, by simpa [htoken] using hne⟩

theorem Rooted.walksFrom (h : t.Rooted root below) : t.WalksFrom root where
  preOrderUpTo steps hsteps := by
    rw [Arena.preOrderUpTo, h.walk hsteps, Forest.map_id_stops, h.preOrder]
  orderTable := h.orderTable
  preOrderWithin levels hlevels := by
    have := h.laysOut.flatMap_preOrderWithin (Nat.le_trans h.length_ids_le hlevels)
    simpa [h.preOrder, Forest.tops] using this
  nodup := h.preOrder ▸ h.nodup
  mem_preOrder_iff _ := h.mem_preOrder_iff
  leafTable := h.leafTable
  leaves_sublist := List.filter_sublist
  mem_leaves_iff id := by rw [leaves, List.mem_filter, h.mem_preOrder_iff, isTerminal_iff]
  depthTable := h.depthTable
  size_depths := by rw [depths, size_writeDepths, Array.size_replicate]
  getElem?_depths links id hreaches :=
    h.getElem?_depths (s := ⟨id, links⟩) (h.laysOut.mem_stops_iff.mpr hreaches)
  getElem?_depths_unreached id hlt hid :=
    h.getElem?_depths_of_notMem hlt fun hmem => hid (h.mem_preOrder_iff.mp hmem)

/-- **The walks of a walkable arena**: they end, and they find what the root leads to,
each node once and in the order of the recursion over children. All other nodes are those
that the check has counted. The depths are the numbers of links from the root, and zero
where the root does not lead. -/
theorem walks_of_isWalkable (t : Arena) (h : t.isWalkable = true) :
    ∃ root, t.root? = some root ∧ t.WalksFrom root ∧
      (t.check = .ok () → t.preOrder.length = t.size) ∧
      ∀ count, t.check = .error (.unreached count) → t.preOrder.length + count = t.size := by
  obtain ⟨root, below, hrooted⟩ := isWalkable_iff.mp h
  refine ⟨root, hrooted.named, hrooted.walksFrom, fun hok => ?_, fun count hcount => ?_⟩
  · by_contra hlength
    rw [hrooted.check, if_neg hlength] at hok
    cases hok
  · have hle : t.preOrder.length ≤ t.size := by
      rw [hrooted.preOrder]
      exact hrooted.length_ids_le
    rw [hrooted.check] at hcount
    split at hcount
    next => cases hcount
    next =>
      cases hcount
      omega

/-- A tree beside a node that is linked to itself and lists a node of the tree. -/
theorem walks_of_isWalkable_beside :
    let t := Edit.build [.addNode "R" none, .addChild 0 "A" none, .addChild 1 "B" (some "b"),
      .addNode "X" (some "x"), .link 3 3, .pushChild 3 1]
    t.isWalkable = true ∧ t.check = .error (.unreached 1) ∧ ∃ root, t.root? = some root ∧
      t.WalksFrom root ∧ t.preOrder = [0, 1, 2] ∧ t.leaves = [2] ∧ t.depths = #[0, 1, 2, 0] ∧
      t.preOrder.length + 1 = t.size := by
  intro t
  have hwalkable : t.isWalkable = true := by decide +kernel
  have hcheck : t.check = .error (.unreached 1) := by decide +kernel
  obtain ⟨root, hroot, hwalks, -, hcount⟩ := walks_of_isWalkable t hwalkable
  exact ⟨hwalkable, hcheck, root, hroot, hwalks, by decide, by decide, by decide, hcount 1 hcheck⟩

end Arena

end PathCorpus
