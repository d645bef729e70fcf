import PathCorpus.Arena.Edit
import PathCorpus.Proofs.Arena.Route

/-!
# Steps and the links of a tree

All that a step changes are the parent of one node, one child list, the root, and the number of
nodes. Each of them is told here for every step, by what the arena answers and not by its array.

The other side is what the links of a tree have to fulfil: each node but the root stands in the
child list of the one that it names as its parent, no list repeats an id, and nothing is in a
list that does not name its owner. A step that writes one half of a link breaks one of these.

## Main statements

- `Arena.parentId?_putParent`, `Arena.childIds_pushChild`: what the two halves of a link change.
- `Arena.check_eq_ok_iff_spans`: the arenas that the check accepts, by their forests.
- `Arena.Spans.mem_childIds_iff`: the two halves of the links of a tree agree.
-/

namespace PathCorpus

/-- No id stands in two parts of a forest. -/
theorem Forest.nodup_ids_cons_iff {id : Nat} {below beside : Forest} :
    (cons id below beside).ids.Nodup ↔ id ∉ below.ids ∧ id ∉ beside.ids ∧
      below.ids.Nodup ∧ beside.ids.Nodup ∧ List.Disjoint below.ids beside.ids := by
  rw [ids, List.nodup_cons, List.nodup_append', List.mem_append, not_or, and_assoc]

theorem Forest.tops_sublist_ids (f : Forest) : f.tops.Sublist f.ids := by
  induction f with
  | nil => exact .refl _
  | cons id below beside _ ihBeside =>
    exact .cons_cons id (ihBeside.trans (List.sublist_append_right ..))

namespace Arena

variable {t : Arena} {root id j child parent : Nat} {below : Forest}

/-! ## §1: What a step changes -/

theorem node?_modify (t : Arena) (id : Nat) (f : Node → Node) (j : Nat) :
    (t.modify id f).node? j = if j = id then (t.node? j).map f else t.node? j := by
  simp only [node?, modify, Array.getElem?_modify, eq_comm]

/-- A node that a change leaves as it is leaves the arena as it is. -/
theorem modify_eq_self {f : Node → Node} (h : ∀ n, t.node? id = some n → f n = n) :
    t.modify id f = t := by
  have hnodes : t.nodes.modify id f = t.nodes := by
    apply Array.ext_getElem?
    intro i
    rw [Array.getElem?_modify]
    split
    next hi =>
      subst hi
      cases hn : t.nodes[id]? with
      | none => rfl
      | some n => rw [Option.map_some, h n hn]
    next => rfl
  rw [modify, hnodes]

theorem modify_of_size_le (f : Node → Node) (h : t.size ≤ id) : t.modify id f = t := by
  apply modify_eq_self
  intro n hn
  rw [node?_eq_none.mpr h] at hn
  cases hn

@[simp] theorem size_putParent (t : Arena) (id : Nat) (parent? : Option Nat) :
    (t.putParent id parent?).size = t.size := size_modify ..

@[simp] theorem childIds_putParent (t : Arena) (id : Nat) (parent? : Option Nat) (j : Nat) :
    (t.putParent id parent?).childIds j = t.childIds j := by
  by_cases hj : j = id
  · subst hj
    cases hn : t.node? j <;> simp [childIds, putParent, node?_modify, hn]
  · simp [childIds, putParent, node?_modify, hj]

theorem parentId?_putParent (t : Arena) (id : Nat) (parent? : Option Nat) (j : Nat) :
    (t.putParent id parent?).parentId? j =
      if j = id ∧ j < t.size then parent? else t.parentId? j := by
  by_cases hj : j = id
  · subst hj
    by_cases hlt : j < t.size
    · obtain ⟨n, hn⟩ := exists_node_of_lt hlt
      simp [parentId?, putParent, node?_modify, hn, hlt]
    · rw [putParent, modify_of_size_le _ (Nat.le_of_not_lt hlt), if_neg (by simp [hlt])]
  · simp [parentId?, putParent, node?_modify, hj]

@[simp] theorem parentId?_pushChild (t : Arena) (id child j : Nat) :
    (t.pushChild id child).parentId? j = t.parentId? j := by
  by_cases hj : j = id
  · subst hj
    cases hn : t.node? j <;> simp [parentId?, pushChild, node?_modify, hn]
  · simp [parentId?, pushChild, node?_modify, hj]

theorem childIds_pushChild (t : Arena) (id child j : Nat) :
    (t.pushChild id child).childIds j =
      if j = id ∧ j < t.size then t.childIds j ++ [child] else t.childIds j := by
  by_cases hj : j = id
  · subst hj
    by_cases hlt : j < t.size
    · obtain ⟨n, hn⟩ := exists_node_of_lt hlt
      simp [childIds, pushChild, node?_modify, hn, hlt]
    · rw [pushChild, modify_of_size_le _ (Nat.le_of_not_lt hlt), if_neg (by simp [hlt])]
  · simp [childIds, pushChild, node?_modify, hj]

theorem node?_addNode (t : Arena) (label : String) (token? : Option String) (j : Nat) :
    (t.addNode label token?).node? j = if j = t.size then some { label, token? } else t.node? j :=
  Array.getElem?_push

@[simp] theorem childIds_addNode (t : Arena) (label : String) (token? : Option String) (j : Nat) :
    (t.addNode label token?).childIds j = t.childIds j := by
  by_cases hj : j = t.size
  · have hn : t.node? t.size = none := node?_eq_none.mpr (Nat.le_refl _)
    simp [childIds, node?_addNode, hj, hn]
  · simp [childIds, node?_addNode, hj]

@[simp] theorem parentId?_addNode (t : Arena) (label : String) (token? : Option String) (j : Nat) :
    (t.addNode label token?).parentId? j = t.parentId? j := by
  by_cases hj : j = t.size
  · have hn : t.node? t.size = none := node?_eq_none.mpr (Nat.le_refl _)
    simp [parentId?, node?_addNode, hj, hn]
  · simp [parentId?, node?_addNode, hj]

theorem parentId?_addChild (t : Arena) (parent : Nat) (label : String) (token? : Option String)
    (j : Nat) : (t.addChild parent label token?).parentId? j =
      if j = t.size then some parent else t.parentId? j := by
  rw [addChild, link, parentId?_pushChild, parentId?_putParent, parentId?_addNode, size_addNode]
  by_cases hj : j = t.size <;> simp [hj]

theorem childIds_addChild (t : Arena) (parent : Nat) (label : String) (token? : Option String)
    (j : Nat) : (t.addChild parent label token?).childIds j =
      if j = parent ∧ j ≤ t.size then t.childIds j ++ [t.size] else t.childIds j := by
  simp only [addChild, link, childIds_pushChild, childIds_putParent, childIds_addNode,
    size_putParent, size_addNode, Nat.lt_succ_iff]

/-! ## §2: The links of a tree -/

/-- A root over a forest that holds every id of the arena. -/
structure Spans (t : Arena) (root : Nat) (below : Forest) : Prop extends t.Rooted root below where
  mem_ids : ∀ id < t.size, id ∈ (Forest.cons root below .nil).ids

theorem check_eq_ok_iff_spans : t.check = .ok () ↔ ∃ root below, t.Spans root below := by
  rw [check_eq_ok_iff]
  exact ⟨fun ⟨root, below, h, hall⟩ => ⟨root, below, h, hall⟩,
    fun ⟨root, below, h⟩ => ⟨root, below, h.toRooted, h.mem_ids⟩⟩

theorem LaysOut.nodup_childIds {f : Forest} (h : t.LaysOut f) (hnodup : f.ids.Nodup)
    (hid : id ∈ f.ids) : (t.childIds id).Nodup := by
  induction f with
  | nil => cases hid
  | cons top below beside ihBelow ihBeside =>
    obtain ⟨⟨_, hchildren, _⟩, hbelow, hbeside⟩ := h
    obtain ⟨-, -, hnodupBelow, hnodupBeside, -⟩ := Forest.nodup_ids_cons_iff.mp hnodup
    simp only [Forest.ids, List.mem_cons, List.mem_append] at hid
    rcases hid with rfl | hid | hid
    · exact hchildren ▸ hnodupBelow.sublist below.tops_sublist_ids
    · exact ihBelow hbelow hnodupBelow hid
    · exact ihBeside hbeside hnodupBeside hid

namespace Spans

/-- The two halves of a link agree. -/
theorem mem_childIds_iff (h : t.Spans root below) :
    child ∈ t.childIds parent ↔ t.parentId? child = some parent := by
  have hlinked := h.wellLinked h.mem_ids
  exact ⟨fun hchild => (hlinked.isChild_of_mem hchild).1,
    fun hparent => (hlinked.isChild_of_parentId? hparent).2⟩

theorem nodup_childIds (h : t.Spans root below) (id : Nat) : (t.childIds id).Nodup := by
  by_cases hlt : id < t.size
  · exact h.laysOut.nodup_childIds h.nodup (h.mem_ids id hlt)
  · rw [childIds, node?_eq_none.mpr (Nat.le_of_not_lt hlt)]
    exact .nil

/-- Every node but the root names a parent. -/
theorem exists_parentId? (h : t.Spans root below) (hlt : id < t.size) (hne : id ≠ root) :
    ∃ parent, t.parentId? id = some parent := by
  rcases h.laysOut.exists_isChild (h.mem_ids id hlt) with htop | ⟨parent, hchild⟩
  · exact absurd (by simpa [Forest.tops] using htop) hne
  · exact ⟨parent, hchild.1⟩

theorem ne_root_of_parentId? (h : t.Spans root below) (hparent : t.parentId? id = some parent) :
    id ≠ root := by
  rintro rfl
  rw [h.noParent] at hparent
  cases hparent

theorem eq_root_of_parentId?_eq_none (h : t.Spans root below) (hlt : id < t.size)
    (hnone : t.parentId? id = none) : id = root := by
  by_contra hne
  obtain ⟨parent, hparent⟩ := h.exists_parentId? hlt hne
  rw [hnone] at hparent
  cases hparent

/-- No node is its own parent. -/
theorem parentId?_ne_self (h : t.Spans root below) (id : Nat) : t.parentId? id ≠ some id := by
  intro hself
  obtain ⟨depth, hdeep⟩ := (h.wellLinked h.mem_ids).deep id (lt_size_of_parentId? hself)
  have := hdeep.depth_unique (.link hself hdeep)
  omega

end Spans

end Arena

end PathCorpus
