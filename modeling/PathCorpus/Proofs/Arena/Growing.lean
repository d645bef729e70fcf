import PathCorpus.Proofs.Arena.Links
import PathCorpus.Proofs.Arena.Walkable

/-!
# Trees that grow

A child that is added below a node of a tree becomes the last tree of the forest below that node, a
tree of one node. Nothing else in the forest moves. So in pre-order the new node comes right after
all that was below its parent, the depths of the other nodes stay, and the arena is a tree again.

## Main statements

- `Forest.graft`: the forest with the new node.
- `Arena.LaysOut.graft`: the arena lays this forest out when the child was added.
- `Arena.LaysOut.exists_stops_graft`: where the new node comes in the order.
- `Arena.Spans.exists_addChild`, `Arena.Spans.growsUnder`: the tree after it and what walks find.
-/

namespace PathCorpus

namespace Forest

variable {parent new : Nat}

/-! ## §1: Forests -/

/-- The forest with one more tree, of one node, after its last one. -/
def addLast (new : Nat) : Forest → Forest
  | nil => cons new nil nil
  | cons id below beside => cons id below (beside.addLast new)

/-- The forest with a new last child below a node. -/
def graft (parent new : Nat) : Forest → Forest
  | nil => nil
  | cons id below beside =>
    let below := below.graft parent new
    cons id (if id = parent then below.addLast new else below) (beside.graft parent new)

@[simp] theorem tops_addLast (f : Forest) (new : Nat) : (f.addLast new).tops = f.tops ++ [new] := by
  induction f with
  | nil => rfl
  | cons id below beside _ ihBeside => simp [addLast, tops, ihBeside]

@[simp] theorem stops_addLast (f : Forest) (new depth : Nat) :
    (f.addLast new).stops depth = f.stops depth ++ [⟨new, depth⟩] := by
  induction f generalizing depth with
  | nil => rfl
  | cons id below beside _ ihBeside => simp [addLast, stops, ihBeside]

@[simp] theorem tops_graft (f : Forest) (parent new : Nat) :
    (f.graft parent new).tops = f.tops := by
  induction f with
  | nil => rfl
  | cons id below beside _ ihBeside => simp [graft, tops, ihBeside]

/-- Without the node there is nothing to add. -/
theorem graft_of_notMem {f : Forest} (h : parent ∉ f.ids) : f.graft parent new = f := by
  induction f with
  | nil => rfl
  | cons id below beside ihBelow ihBeside =>
    simp only [ids, List.mem_cons, List.mem_append, not_or] at h
    obtain ⟨hne, hbelow, hbeside⟩ := h
    rw [graft, ihBelow hbelow, ihBeside hbeside, if_neg (Ne.symm hne)]

end Forest

namespace Arena

variable {t : Arena} {root parent new : Nat} {below : Forest} {label : String}
  {token? : Option String}

/-! ## §2: The forest after a child was added -/

theorem laysOut_addLast {f : Forest} (h : t.LaysOut f) (hnew : t.Bears new .nil) :
    t.LaysOut (f.addLast new) := by
  induction f with
  | nil => exact ⟨hnew, trivial, trivial⟩
  | cons id below beside _ ihBeside => exact ⟨h.1, h.2.1, ihBeside h.2.2⟩

theorem childIds_size (t : Arena) : t.childIds t.size = [] := by
  rw [childIds, node?_eq_none.mpr (Nat.le_refl _)]

/-- The new node has nothing below it. -/
theorem bears_addChild_size (hparent : parent < t.size) :
    (t.addChild parent label token?).Bears t.size .nil := by
  have hchildren : (t.addChild parent label token?).childIds t.size = [] := by
    rw [childIds_addChild, if_neg (by omega), childIds_size]
  exact ⟨by simp, hchildren, nofun⟩

/-- A node of the arena has the children that it had, and after them the new one if it is the
parent. -/
theorem Bears.addChild {id : Nat} {f f' : Forest} (h : t.Bears id f)
    (hlt : ∀ top ∈ f.tops, top < t.size)
    (htops : f'.tops = if id = parent then f.tops ++ [t.size] else f.tops) :
    (t.addChild parent label token?).Bears id f' := by
  obtain ⟨hid, hchildren, hparents⟩ := h
  have hold : ∀ top ∈ f.tops, (t.addChild parent label token?).parentId? top = some id := by
    intro top htop
    rw [parentId?_addChild, if_neg (Nat.ne_of_lt (hlt top htop)), hparents top htop]
  refine ⟨by simp only [size_addChild]; omega, ?_, ?_⟩
  · simp only [childIds_addChild, htops, hchildren, Nat.le_of_lt hid, and_true]
  · intro child hchild
    rw [htops] at hchild
    split at hchild
    next hparent =>
      rcases List.mem_append.mp hchild with hchild | hchild
      · exact hold child hchild
      · rw [parentId?_addChild, if_pos (List.mem_singleton.mp hchild), hparent]
    next => exact hold child hchild

/-- The forest that the arena had is laid out with the new child in it. -/
theorem LaysOut.graft {f : Forest} (h : t.LaysOut f) (hparent : parent < t.size) :
    (t.addChild parent label token?).LaysOut (f.graft parent t.size) := by
  induction f with
  | nil => trivial
  | cons id below beside ihBelow ihBeside =>
    obtain ⟨hbears, hbelow, hbeside⟩ := h
    refine ⟨hbears.addChild (fun top htop => ?_) ?_, ?_, ihBeside hbeside⟩
    · exact hbelow.lt_size top (below.tops_subset_ids htop)
    · split <;> simp
    · split
      · exact laysOut_addLast (ihBelow hbelow) (bears_addChild_size hparent)
      · exact ihBelow hbelow

/-- **Where the new child comes**: what is at and below its parent stands in one piece in the
order, and the child comes right after it, one link deeper than its parent. -/
theorem LaysOut.exists_stops_graft {f : Forest} (h : t.LaysOut f) (hnodup : f.ids.Nodup)
    (hparent : parent ∈ f.ids) (new depth : Nat) :
    ∃ before sub after d, t.LaysOut (.cons parent sub .nil) ∧
      f.stops depth = before ++ (Forest.cons parent sub .nil).stops d ++ after ∧
      (f.graft parent new).stops depth =
        before ++ (Forest.cons parent sub .nil).stops d ++ ⟨new, d + 1⟩ :: after := by
  induction f generalizing depth with
  | nil => cases hparent
  | cons id below beside ihBelow ihBeside =>
    obtain ⟨hbears, hbelow, hbeside⟩ := h
    obtain ⟨hidBelow, hidBeside, hnodupBelow, hnodupBeside, hdisjoint⟩ :=
      Forest.nodup_ids_cons_iff.mp hnodup
    simp only [Forest.ids, List.mem_cons, List.mem_append] at hparent
    rcases hparent with rfl | hparent | hparent
    · -- the node itself: nothing else in the forest is it
      refine ⟨[], below, beside.stops depth, depth, ⟨hbears, hbelow, trivial⟩, ?_, ?_⟩
      · simp [Forest.stops]
      · simp [Forest.stops, Forest.graft, Forest.graft_of_notMem hidBelow,
          Forest.graft_of_notMem hidBeside]
    · -- below the first node: what is beside it comes later and stays as it is
      have hne : id ≠ parent := fun heq => hidBelow (heq ▸ hparent)
      have hnot : parent ∉ beside.ids := fun hmem => hdisjoint hparent hmem
      obtain ⟨before, sub, after, d, hsub, hstops, hgraft⟩ :=
        ihBelow hbelow hnodupBelow hparent (depth + 1)
      refine ⟨⟨id, depth⟩ :: before, sub, after ++ beside.stops depth, d, hsub, ?_, ?_⟩
      · simp [Forest.stops, hstops]
      · simp [Forest.stops, Forest.graft, hne, Forest.graft_of_notMem hnot, hgraft]
    · -- beside the first node: all that is at and below it comes before
      have hne : id ≠ parent := fun heq => hidBeside (heq ▸ hparent)
      have hnot : parent ∉ below.ids := fun hmem => hdisjoint hmem hparent
      obtain ⟨before, sub, after, d, hsub, hstops, hgraft⟩ :=
        ihBeside hbeside hnodupBeside hparent depth
      refine ⟨⟨id, depth⟩ :: (below.stops (depth + 1) ++ before), sub, after, d, hsub, ?_, ?_⟩
      · simp [Forest.stops, hstops]
      · simp [Forest.stops, Forest.graft, hne, Forest.graft_of_notMem hnot, hgraft]

/-! ## §3: The tree after a child was added -/

/-- What the walks find when a child was added below a node of a tree. -/
structure GrowsUnder (t u : Arena) (parent : Nat) : Prop where
  /-- The new node comes right after all that was at and below the parent. -/
  preOrder : ∃ before sub after, (∀ id, id ∈ sub ↔ t.Reaches parent id) ∧
    t.preOrder = before ++ sub ++ after ∧ u.preOrder = before ++ sub ++ t.size :: after
  /-- The depths stay, and that of the new node is one more than that of the parent. -/
  depths : ∃ depth, t.depths[parent]? = some depth ∧ u.depths = t.depths.push (depth + 1)

theorem LaysOut.ids_graft_perm {f : Forest} (h : t.LaysOut f) (hnodup : f.ids.Nodup)
    (hparent : parent ∈ f.ids) (new : Nat) : (f.graft parent new).ids.Perm (new :: f.ids) := by
  obtain ⟨before, sub, after, d, -, hstops, hgraft⟩ := h.exists_stops_graft hnodup hparent new 0
  have hperm : ((f.graft parent new).stops 0).Perm (⟨new, d + 1⟩ :: f.stops 0) := by
    rw [hstops, hgraft]
    exact List.perm_middle
  simpa using hperm.map (·.id)

/-- With the new child in it the forest holds every id again. -/
theorem Spans.exists_addChild (h : t.Spans root below) (hparent : parent < t.size)
    (label : String) (token? : Option String) :
    ∃ below', (t.addChild parent label token?).Spans root below' ∧
      .cons root below' .nil = (Forest.cons root below .nil).graft parent t.size := by
  have hperm := h.laysOut.ids_graft_perm h.nodup (h.mem_ids parent hparent) t.size
  refine ⟨_, ⟨⟨?_, ?_, h.laysOut.graft hparent, ?_⟩, fun id hid => ?_⟩, rfl⟩
  · simp [addChild, link, putParent, pushChild, modify, addNode, h.named]
  · rw [parentId?_addChild, if_neg (Nat.ne_of_lt h.root_lt_size), h.noParent]
  · have hnew : t.size ∉ (Forest.cons root below .nil).ids := fun hmem =>
      Nat.lt_irrefl _ (h.laysOut.lt_size _ hmem)
    exact hperm.nodup_iff.mpr (List.nodup_cons.mpr ⟨hnew, h.nodup⟩)
  · apply hperm.mem_iff.mpr
    rw [size_addChild] at hid
    rcases Nat.lt_succ_iff_lt_or_eq.mp hid with hlt | rfl
    · exact List.mem_cons_of_mem _ (h.mem_ids id hlt)
    · exact List.mem_cons_self

/-- The table of depths has the depth of every stop, and an entry for every id. -/
theorem Spans.depths_eq_push {u : Arena} {below' : Forest} {before after : List Stop} {depth : Nat}
    (h : t.Spans root below) (h' : u.Spans root below') (hsize : u.size = t.size + 1)
    (hstops : (Forest.cons root below .nil).stops 0 = before ++ after)
    (hstops' : (Forest.cons root below' .nil).stops 0 = before ++ ⟨t.size, depth⟩ :: after) :
    u.depths = t.depths.push depth := by
  have hold : t.depths.size = t.size := h.walksFrom.size_depths
  have hnew : u.depths.size = t.size + 1 := h'.walksFrom.size_depths.trans hsize
  apply Array.ext_getElem?
  intro id
  rw [Array.getElem?_push, hold]
  by_cases hid : id = t.size
  · subst hid
    have hstop : ⟨t.size, depth⟩ ∈ (Forest.cons root below' .nil).stops 0 := by simp [hstops']
    rw [if_pos rfl, h'.getElem?_depths hstop]
  · rw [if_neg hid]
    by_cases hlt : id < t.size
    · -- an old stop is there before and after
      obtain ⟨d, hstop⟩ := Forest.exists_stop_of_mem_ids 0 (h.mem_ids id hlt)
      have hstop' : ⟨id, d⟩ ∈ (Forest.cons root below' .nil).stops 0 := by
        rw [hstops, List.mem_append] at hstop
        rw [hstops', List.mem_append, List.mem_cons]
        exact hstop.imp_right .inr
      rw [h.getElem?_depths hstop, h'.getElem?_depths hstop']
    · rw [Array.getElem?_eq_none (by omega), Array.getElem?_eq_none (by omega)]

/-- **A tree grows under a node**: in pre-order the new child stands after the subtree of its
parent, and its depth is one more than that of the parent. -/
theorem Spans.growsUnder (h : t.Spans root below) (hparent : parent < t.size) (label : String)
    (token? : Option String) : t.GrowsUnder (t.addChild parent label token?) parent := by
  obtain ⟨below', h', hbelow'⟩ := h.exists_addChild hparent label token?
  obtain ⟨before, sub, after, d, hsub, hstops, hgraft⟩ :=
    h.laysOut.exists_stops_graft h.nodup (h.mem_ids parent hparent) t.size 0
  rw [← hbelow'] at hgraft
  refine ⟨⟨before.map (·.id), (Forest.cons parent sub .nil).ids, after.map (·.id),
    fun id => hsub.mem_ids_iff, ?_, ?_⟩, ⟨d, ?_, ?_⟩⟩
  · rw [h.preOrder, ← Forest.map_id_stops _ 0, hstops, List.map_append, List.map_append,
      Forest.map_id_stops]
  · rw [h'.preOrder, ← Forest.map_id_stops _ 0, hgraft, List.map_append, List.map_append,
      Forest.map_id_stops, List.map_cons]
  · have hstop : ⟨parent, d⟩ ∈ (Forest.cons root below .nil).stops 0 := by
      rw [hstops]
      simp [Forest.stops]
    exact h.getElem?_depths hstop
  · exact h.depths_eq_push h' (size_addChild ..) hstops hgraft

end Arena

end PathCorpus
