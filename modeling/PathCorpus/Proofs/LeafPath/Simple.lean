import PathCorpus.Proofs.Arena.Route
import PathCorpus.Proofs.Arena.Walkable
import PathCorpus.Proofs.LeafPath.Exact

/-!
# Paths are simple

A path that a search gives is the one way between its ends that comes to no node twice. It
climbs from the first leaf and goes down to the second, and neither part is ever empty, though
no check says so. The reason lies in the order of leaves: of two ids in pre-order, the first of
them a leaf, neither is above the other. So somewhere above them their chains fork, and they do
so in the order of siblings.

## Main statements

- `Arena.LaysOut.exists_fork`: the fork above two ids in pre-order.
- `Arena.Forks.joins`: the chains come together where they fork.
- `Arena.search_isSimple`: the paths of a search.
-/

namespace PathCorpus

/-! ## §1: Pairs in order -/

private theorem pair_sublist_cons_iff {a b x : Nat} {xs : List Nat} :
    [a, b].Sublist (x :: xs) ↔ [a, b].Sublist xs ∨ a = x ∧ b ∈ xs := by
  rw [List.sublist_cons_iff]
  simp only [List.cons.injEq]
  constructor
  · rintro (h | ⟨r, ⟨rfl, rfl⟩, h⟩)
    · exact .inl h
    · exact .inr ⟨rfl, List.singleton_sublist.mp h⟩
  · rintro (h | ⟨rfl, h⟩)
    · exact .inl h
    · exact .inr ⟨[b], ⟨rfl, rfl⟩, List.singleton_sublist.mpr h⟩

private theorem pair_sublist_append_iff {a b : Nat} {xs ys : List Nat} :
    [a, b].Sublist (xs ++ ys) ↔ [a, b].Sublist xs ∨ a ∈ xs ∧ b ∈ ys ∨ [a, b].Sublist ys := by
  induction xs with
  | nil => simp
  | cons x xs ih =>
    rw [List.cons_append, pair_sublist_cons_iff, pair_sublist_cons_iff, ih, List.mem_append,
      List.mem_cons]
    tauto

/-- The leaves of a pair stand in their order. -/
theorem sublist_of_mem_pairsFrom {width : Limit} {leaves : List Nat} {pair : Nat × Nat}
    (h : pair ∈ pairsFrom width leaves) : [pair.1, pair.2].Sublist leaves := by
  induction leaves with
  | nil => simp [pairsFrom] at h
  | cons start later ih =>
    rw [pair_sublist_cons_iff]
    rcases List.mem_append.mp h with h | h
    · obtain ⟨b, hb, rfl⟩ := List.mem_map.mp h
      exact .inr ⟨rfl, Limit.mem_of_mem_take hb⟩
    · exact .inl (ih h)

namespace Arena

variable {t : Arena} {root a b left top right depth depth' : Nat} {below : Forest}

/-! ## §2: Forks -/

/-- `left` and `right` are different ids in order, the first of them above `a` or `a` itself,
and the second above `b` or `b` itself. -/
structure Forks (t : Arena) (siblings : List Nat) (a b left right : Nat) : Prop where
  sublist : [left, right].Sublist siblings
  ne : left ≠ right
  left_mem : left ∈ t.ancestors a
  right_mem : right ∈ t.ancestors b

/-- An id of a forest is below one of the tops. -/
theorem LaysOut.exists_top_mem_ancestors {f : Forest} (h : t.LaysOut f) (hlinked : t.WellLinked)
    (hb : b ∈ f.ids) : ∃ top ∈ f.tops, top ∈ t.ancestors b := by
  induction f with
  | nil => simp [Forest.ids] at hb
  | cons id below beside ihBelow ihBeside =>
    obtain ⟨⟨hid, _, hparents⟩, hbelow, hbeside⟩ := h
    obtain ⟨_, hdeep⟩ := hlinked.deep id hid
    simp only [Forest.ids, List.mem_cons, List.mem_append] at hb
    rcases hb with rfl | hb | hb
    · exact ⟨b, List.mem_cons_self, hdeep.self_mem_ancestors⟩
    · -- a top of what is below has `id` above it
      obtain ⟨top, htop, hmem⟩ := ihBelow hbelow hb
      obtain ⟨_, hbdeep⟩ := hlinked.deep b (hbelow.lt_size b hb)
      refine ⟨id, List.mem_cons_self, hbdeep.mem_ancestors_trans hmem ?_⟩
      rw [ancestors_of_link (hparents top htop) hdeep]
      exact List.mem_cons_of_mem _ hdeep.self_mem_ancestors
    · obtain ⟨top, htop, hmem⟩ := ihBeside hbeside hb
      exact ⟨top, List.mem_cons_of_mem _ htop, hmem⟩

/-- Of two ids in the order of a forest, the first of them a leaf, the chains fork among the
tops, or among the children of a node. -/
theorem LaysOut.exists_fork {f : Forest} (h : t.LaysOut f) (hlinked : t.WellLinked)
    (hnodup : f.ids.Nodup) (hleaf : t.childIds a = []) (hab : [a, b].Sublist f.ids) :
    (∃ left right, t.Forks f.tops a b left right) ∨
      ∃ top left right, t.Forks (t.childIds top) a b left right := by
  induction f with
  | nil => simp [Forest.ids] at hab
  | cons id below beside ihBelow ihBeside =>
    obtain ⟨⟨hid, hchildren, hparents⟩, hbelow, hbeside⟩ := h
    rw [Forest.ids, List.nodup_cons, List.nodup_append] at hnodup
    obtain ⟨hidnot, hnodupBelow, hnodupBeside, hdisjoint⟩ := hnodup
    -- an id at or below the first top, and one at or below a later top
    have hapart : a = id ∨ a ∈ below.ids → b ∈ beside.ids →
        ∃ left right, t.Forks (id :: beside.tops) a b left right := by
      intro ha hb
      have htop : t.LaysOut (.cons id below .nil) := ⟨⟨hid, hchildren, hparents⟩, hbelow, trivial⟩
      obtain ⟨left, hleft, hleftmem⟩ := htop.exists_top_mem_ancestors hlinked (b := a) (by
        simpa [Forest.ids] using ha)
      obtain ⟨right, hright, hrightmem⟩ := hbeside.exists_top_mem_ancestors hlinked hb
      obtain rfl : left = id := by simpa [Forest.tops] using hleft
      refine ⟨left, right, pair_sublist_cons_iff.mpr (.inr ⟨rfl, hright⟩), ?_, hleftmem, hrightmem⟩
      rintro rfl
      exact hidnot (List.mem_append_right _ (beside.tops_subset_ids hright))
    rw [Forest.ids, pair_sublist_cons_iff, pair_sublist_append_iff] at hab
    rcases hab with (hab | hab | hab) | hab
    · rcases ihBelow hbelow hnodupBelow hab with ⟨left, right, hforks⟩ | hforks
      · exact .inr ⟨id, left, right, hchildren ▸ hforks⟩
      · exact .inr hforks
    · exact .inl (hapart (.inr hab.1) hab.2)
    · rcases ihBeside hbeside hnodupBeside hab with ⟨left, right, hforks⟩ | hforks
      · exact .inl ⟨left, right, hforks.sublist.cons _, hforks.ne, hforks.left_mem,
          hforks.right_mem⟩
      · exact .inr hforks
    · -- the first id is the first top, and being a leaf it has nothing below it
      obtain ⟨rfl, hb⟩ := hab
      rcases List.mem_append.mp hb with hb | hb
      · obtain ⟨top, htop, _⟩ := hbelow.exists_top_mem_ancestors hlinked hb
        rw [← hchildren, hleaf] at htop
        cases htop
      · exact .inl (hapart (.inl rfl) hb)

/-- Chains that fork among the children of a node come together there. -/
theorem Forks.joins (h : t.Forks (t.childIds top) a b left right) (hlinked : t.WellLinked)
    (ha : t.Deep a depth) (hb : t.Deep b depth') :
    ∃ up down, t.Joins a b (up ++ [left]) top (down ++ [right]) := by
  obtain ⟨hleftParent, hleftChild⟩ := hlinked.isChild_of_mem (h.sublist.subset List.mem_cons_self)
  obtain ⟨hrightParent, _⟩ :=
    hlinked.isChild_of_mem (h.sublist.subset (by simp : right ∈ [left, right]))
  obtain ⟨e, htop⟩ := hlinked.deep top (lt_size_of_mem_childIds hleftChild)
  have hleftDeep : t.Deep left (e + 1) := .link hleftParent htop
  have hrightDeep : t.Deep right (e + 1) := .link hrightParent htop
  obtain ⟨up, hup⟩ := ha.exists_ancestors_append h.left_mem
  obtain ⟨down, hdown⟩ := hb.exists_ancestors_append h.right_mem
  rw [ancestors_of_link hleftParent htop, List.append_cons] at hup
  rw [ancestors_of_link hrightParent htop, List.append_cons] at hdown
  have hupNodup := ha.nodup_ancestors
  have hdownNodup := hb.nodup_ancestors
  rw [hup] at hupNodup
  rw [hdown] at hdownNodup
  refine ⟨up, down, hup, hdown, ⟨e, htop⟩, fun x hx hxb => ?_, fun hmem => ?_⟩
  · have hxa : x ∈ t.ancestors a := hup ▸ List.mem_append_left _ hx
    obtain ⟨d, _, hxdeep⟩ := ha.of_mem_ancestors hxa
    rcases Nat.lt_or_ge e d with hlt | hle
    · -- below the top both siblings would be above `x`, and there is one node only at each depth
      have hl := ha.mem_ancestors_of_le hxa h.left_mem hxdeep hleftDeep hlt
      have hr := hb.mem_ancestors_of_le hxb h.right_mem hxdeep hrightDeep hlt
      have hr' := hxdeep.mem_ancestors_of_le hl hr hleftDeep hrightDeep (Nat.le_refl _)
      exact h.ne (hleftDeep.eq_of_mem_ancestors hr' hrightDeep).symm
    · -- and from the top on the chain does not come to it again
      have htopmem : top ∈ t.ancestors a := by
        rw [hup]
        exact List.mem_append_right _ htop.self_mem_ancestors
      have hxtop := ha.mem_ancestors_of_le htopmem hxa htop hxdeep hle
      exact List.disjoint_of_nodup_append hupNodup hx hxtop
  · exact List.disjoint_of_nodup_append hdownNodup hmem htop.self_mem_ancestors

/-! ## §3: Simple paths -/

/-- The path is the simple path between its ends. -/
structure IsSimple (t : Arena) (p : LeafPath) : Prop where
  starts : p.upward.head? = some p.start
  finishes : p.downward.getLast? = some p.finish
  climbs : (p.upward ++ [p.top]).IsChain t.IsChild
  descends : (p.top :: p.downward).IsChain fun parent child => t.IsChild child parent
  nodup : p.nodes.Nodup
  inner : ∀ id ∈ p.nodes, id ≠ p.start → id ≠ p.finish → t.childIds id ≠ []
  /-- It turns at the top, from one child to a later one. -/
  turns : ∃ left right, p.upward.getLast? = some left ∧ p.downward.head? = some right ∧
    left ≠ right ∧ [left, right].Sublist (t.childIds p.top)
  height : t.LinksBetween p.start p.finish p.height

/-- A node of a chain that is not its start has children. -/
theorem WellLinked.childIds_ne_nil (hlinked : t.WellLinked) (ha : t.Deep a depth) {id : Nat}
    (hid : id ∈ t.ancestors a) (hne : id ≠ a) : t.childIds id ≠ [] := by
  obtain ⟨child, hchild⟩ := ha.exists_child_of_mem_ancestors hid hne
  exact List.ne_nil_of_mem (hlinked.isChild_of_parentId? hchild).2

/-- A fork makes the path of the two chains a simple one. -/
theorem Forks.isSimple (h : t.Forks (t.childIds top) a b left right) (hlinked : t.WellLinked)
    (ha : t.Deep a depth) (hb : t.Deep b depth') {p : LeafPath} (hp : t.joining? a b = some p) :
    t.IsSimple p := by
  obtain ⟨up, down, hjoins⟩ := h.joins hlinked ha hb
  rw [hjoins.joining?] at hp
  obtain rfl := Option.some.inj hp
  refine ⟨?_, ?_, hjoins.isChain_left hlinked ha, hjoins.isChain_right hlinked hb,
    hjoins.nodup ha hb, fun id hid hstart hfinish => ?_, ?_, ?_⟩
  · exact ha.head?_of_ancestors_eq hjoins.left_eq (by simp)
  · rw [List.getLast?_reverse]
    exact hb.head?_of_ancestors_eq hjoins.right_eq (by simp)
  · rcases hjoins.mem_ancestors hid with hmem | hmem
    · exact hlinked.childIds_ne_nil ha hmem hstart
    · exact hlinked.childIds_ne_nil hb hmem hfinish
  · exact ⟨left, right, by simp, by simp, h.ne, h.sublist⟩
  · have hlinks := hjoins.linksBetween hlinked ha hb
    rwa [← (down ++ [right]).length_reverse] at hlinks

/-- Two leaves of a tree, in their order, fork. -/
theorem Rooted.exists_forks (h : t.Rooted root below) (hlinked : t.WellLinked)
    (hab : [a, b].Sublist t.leaves) :
    ∃ top left right, t.Forks (t.childIds top) a b left right := by
  have ha : a ∈ t.leaves := hab.subset List.mem_cons_self
  obtain ⟨n, _, hn, hchildren, _⟩ := isTerminal_iff.mp (List.mem_filter.mp ha).2
  have hleaf : t.childIds a = [] := by rw [childIds_eq_children hn, hchildren]
  have hids : [a, b].Sublist (Forest.cons root below .nil).ids := by
    rw [← h.preOrder]
    exact hab.trans List.filter_sublist
  rcases h.laysOut.exists_fork hlinked h.nodup hleaf hids with ⟨left, right, hforks⟩ | hforks
  · -- two siblings are more than the root alone
    have hle := hforks.sublist.length_le
    simp [Forest.tops] at hle
  · exact hforks

theorem Rooted.isSimple_of_mem_pathsWithin (h : t.Rooted root below) (hlinked : t.WellLinked)
    {bounds : PathBounds} {p : LeafPath} (hp : p ∈ t.pathsWithin bounds) : t.IsSimple p := by
  simp only [pathsWithin, h.named, leafPairs_eq_pairsFrom, ← h.leaves_eq] at hp
  obtain ⟨⟨a, b⟩, hpair, hp⟩ := List.mem_filterMap.mp hp
  obtain ⟨hjoining, _⟩ := Option.filter_eq_some_iff.mp hp
  obtain ⟨ha, hb⟩ := mem_of_mem_pairsFrom hpair
  obtain ⟨_, _, hadeep⟩ := h.exists_depth_of_mem_leaves ha
  obtain ⟨_, _, hbdeep⟩ := h.exists_depth_of_mem_leaves hb
  obtain ⟨top, left, right, hforks⟩ := h.exists_forks hlinked (sublist_of_mem_pairsFrom hpair)
  exact hforks.isSimple hlinked hadeep hbdeep hjoining

/-- **Every path is simple**: on a tree each call of a search gives nothing, or the simple path
between two leaves. It turns at the top from one child to a later one, and there are as many
links between the leaves as the path is high. -/
theorem search_isSimple (t : Arena) (bounds : PathBounds) (hcheck : t.check = .ok ()) :
    ∃ s, t.search bounds = .ok s ∧ ∀ n p, (s.after n).next.1 = some p → t.IsSimple p := by
  obtain ⟨root, below, h, hall⟩ := check_eq_ok_iff.mp hcheck
  obtain ⟨s, hsearch, _, _, hleft⟩ := h.left_search hcheck bounds
  refine ⟨s, hsearch, fun n p hp => ?_⟩
  rw [s.next_after, hleft] at hp
  exact h.isSimple_of_mem_pathsWithin (h.wellLinked hall) (List.mem_of_getElem? hp)

/-- Leaves of different depths, and a node between them that has no token and no children. -/
theorem search_isSimple_uneven :
    let t := Edit.build [.addNode "R" none, .addChild 0 "A" (some "a"), .addChild 0 "E" none,
      .addChild 0 "B" none, .addChild 3 "C" (some "c")]
    t.check = .ok () ∧ ∃ s, t.search .unbounded = .ok s ∧
      (s.after 0).next.1 = some ⟨1, [1], 0, [3, 4], 4⟩ ∧ t.IsSimple ⟨1, [1], 0, [3, 4], 4⟩ := by
  intro t
  have hcheck : t.check = .ok () := by decide +kernel
  obtain ⟨s, hsearch, hsimple⟩ := search_isSimple t .unbounded hcheck
  obtain ⟨root, below, h, _⟩ := check_eq_ok_iff.mp hcheck
  obtain ⟨s', hsearch', _, _, hleft⟩ := h.left_search hcheck .unbounded
  obtain rfl : s = s' := Except.ok.inj (hsearch.symm.trans hsearch')
  have hnext : (s.after 0).next.1 = some ⟨1, [1], 0, [3, 4], 4⟩ := by
    rw [s.next_after, hleft]
    decide +kernel
  exact ⟨hcheck, s, hsearch, hnext, hsimple 0 _ hnext⟩

end Arena

end PathCorpus
