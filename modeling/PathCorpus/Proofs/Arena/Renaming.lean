import PathCorpus.Proofs.Arena.Ancestors

/-!
# Arenas under other ids

An arena can be written with other ids: each node gets a new one, and what refers to it is
changed along. Nothing but the ids themselves comes out differently then. The forest below the
root, the order of the walk and the chains of ancestors are those of the first arena with the
ids exchanged. What is told from ids by comparing them, such as where two chains come together,
is the same because no two nodes get one id.

## Main statements

- `Arena.Renames.rooted`: the forest below the root.
- `Arena.Renames.ancestors`, `Arena.Renames.joins`: the chains of ancestors, and where they come
  together.
-/

namespace PathCorpus

/-! ## §1: Exchanging ids -/

variable {φ : Nat → Nat}

/-- The node with other ids for its parent and its children. -/
def Node.renamed (φ : Nat → Nat) (n : Node) : Node :=
  { n with parent? := n.parent?.map φ, children := n.children.map φ }

@[simp] theorem Node.isTerminal_renamed (n : Node) : (n.renamed φ).isTerminal = n.isTerminal := by
  simp [renamed, isTerminal, isLeaf, tokenText]

namespace Forest

/-- The forest with other ids. -/
def map (φ : Nat → Nat) : Forest → Forest
  | nil => nil
  | cons id below beside => cons (φ id) (below.map φ) (beside.map φ)

@[simp] theorem tops_map (f : Forest) : (f.map φ).tops = f.tops.map φ := by
  induction f with
  | nil => rfl
  | cons id below beside _ ihBeside => simp [map, tops, ihBeside]

@[simp] theorem ids_map (f : Forest) : (f.map φ).ids = f.ids.map φ := by
  induction f with
  | nil => rfl
  | cons id below beside ihBelow ihBeside => simp [map, ids, ihBelow, ihBeside]

end Forest

namespace Arena

/-- `t` has the nodes of `s` under other ids, no two of them under one. -/
structure Renames (φ : Nat → Nat) (s t : Arena) : Prop where
  root : t.root? = s.root?.map φ
  node : ∀ id < s.size, t.node? (φ id) = (s.node? id).map (Node.renamed φ)
  injective : ∀ i < s.size, ∀ j < s.size, φ i = φ j → i = j

namespace Renames

variable {s t : Arena} {id root depth : Nat} {below : Forest}

/-! ## §2: Single nodes -/

theorem label? (h : Renames φ s t) (hid : id < s.size) : t.label? (φ id) = s.label? id := by
  rw [Arena.label?, Arena.label?, h.node id hid, Option.map_map]
  rfl

theorem tokenText? (h : Renames φ s t) (hid : id < s.size) :
    t.tokenText? (φ id) = s.tokenText? id := by
  rw [Arena.tokenText?, Arena.tokenText?, h.node id hid, Option.map_map]
  rfl

theorem isTerminal (h : Renames φ s t) (hid : id < s.size) :
    t.isTerminal (φ id) = s.isTerminal id := by
  rw [Arena.isTerminal, Arena.isTerminal, h.node id hid]
  cases s.node? id <;> simp

theorem parentId? (h : Renames φ s t) (hid : id < s.size) :
    t.parentId? (φ id) = (s.parentId? id).map φ := by
  rw [Arena.parentId?, Arena.parentId?, h.node id hid]
  cases s.node? id <;> rfl

theorem childIds (h : Renames φ s t) (hid : id < s.size) :
    t.childIds (φ id) = (s.childIds id).map φ := by
  obtain ⟨n, hn⟩ := exists_node_of_lt hid
  have hn' : t.node? (φ id) = some (n.renamed φ) := by rw [h.node id hid, hn, Option.map_some]
  rw [childIds_eq_children hn', childIds_eq_children hn]
  rfl

theorem lt_size (h : Renames φ s t) (hid : id < s.size) : φ id < t.size := by
  obtain ⟨n, hn⟩ := exists_node_of_lt hid
  have hnode := h.node id hid
  rw [hn, Option.map_some] at hnode
  rw [← Nat.not_le, ← node?_eq_none, hnode]
  simp

/-! ## §3: The forest below the root -/

theorem laysOut (h : Renames φ s t) {f : Forest} (hf : s.LaysOut f) : t.LaysOut (f.map φ) := by
  induction f with
  | nil => trivial
  | cons id below beside ihBelow ihBeside =>
    have hlt := hf.lt_size
    obtain ⟨⟨hid, hchildren, hparents⟩, hbelow, hbeside⟩ := hf
    refine ⟨⟨h.lt_size hid, ?_, ?_⟩, ihBelow hbelow, ihBeside hbeside⟩
    · rw [h.childIds hid, hchildren, Forest.tops_map]
    · rw [Forest.tops_map, List.forall_mem_map]
      intro child hchild
      have hmem := Forest.tops_subset_ids below hchild
      rw [h.parentId? (hbelow.lt_size child hmem), hparents child hchild, Option.map_some]

theorem rooted (h : Renames φ s t) (hs : s.Rooted root below) :
    t.Rooted (φ root) (below.map φ) where
  named := by rw [h.root, hs.named, Option.map_some]
  noParent := by rw [h.parentId? hs.root_lt_size, hs.noParent, Option.map_none]
  laysOut := h.laysOut hs.laysOut
  nodup := by
    have hlt := hs.laysOut.lt_size
    rw [show Forest.cons (φ root) (below.map φ) .nil = (Forest.cons root below .nil).map φ from rfl,
      Forest.ids_map]
    exact hs.nodup.map_on fun i hi j hj => h.injective i (hlt i hi) j (hlt j hj)

theorem preOrder (h : Renames φ s t) (hs : s.Rooted root below) :
    t.preOrder = s.preOrder.map φ := by
  rw [(h.rooted hs).preOrder, hs.preOrder, ← Forest.ids_map]
  rfl

theorem leaves (h : Renames φ s t) (hs : s.Rooted root below) : t.leaves = s.leaves.map φ := by
  rw [Arena.leaves, Arena.leaves, h.preOrder hs, List.filter_map]
  refine congrArg (List.map φ) (List.filter_congr fun id hid => ?_)
  rw [hs.preOrder] at hid
  exact h.isTerminal (hs.laysOut.lt_size id hid)

/-! ## §4: Chains of ancestors -/

theorem deep (h : Renames φ s t) (hid : s.Deep id depth) : t.Deep (φ id) depth := by
  induction hid with
  | root named exists_root noParent =>
    refine .root ?_ (h.lt_size exists_root) ?_
    · rw [h.root, named, Option.map_some]
    · rw [h.parentId? exists_root, noParent, Option.map_none]
  | link isParent deep ih =>
    refine .link ?_ ih
    rw [h.parentId? (lt_size_of_parentId? isParent), isParent, Option.map_some]

/-- A chain goes up in the one arena as it does in the other. -/
theorem ancestors (h : Renames φ s t) (hid : s.Deep id depth) :
    t.ancestors (φ id) = (s.ancestors id).map φ := by
  induction hid with
  | root named exists_root noParent =>
    have hroot := Deep.root named exists_root noParent
    rw [ancestors_of_root hroot, ancestors_of_root (h.deep hroot), List.map_singleton]
  | @link id parent depth isParent deep ih =>
    have hparent : t.parentId? (φ id) = some (φ parent) := by
      rw [h.parentId? (lt_size_of_parentId? isParent), isParent, Option.map_some]
    rw [ancestors_of_link isParent deep, ancestors_of_link hparent (h.deep deep), ih, List.map_cons]

/-- Whether an id is among others does not depend on how they are written. -/
theorem notMem_map (h : Renames φ s t) {i : Nat} {ids : List Nat} (hi : i < s.size)
    (hids : ∀ j ∈ ids, j < s.size) (hmem : i ∉ ids) : φ i ∉ ids.map φ := by
  intro hφ
  obtain ⟨j, hj, hji⟩ := List.mem_map.mp hφ
  rw [h.injective j (hids j hj) i hi hji] at hj
  exact hmem hj

/-- Two chains come together where they do in the other arena. -/
theorem joins (h : Renames φ s t) {a b top d e : Nat} {left right : List Nat} (ha : s.Deep a d)
    (hb : s.Deep b e) (hjoins : s.Joins a b left top right) :
    t.Joins (φ a) (φ b) (left.map φ) (φ top) (right.map φ) := by
  obtain ⟨depth, htop⟩ := hjoins.deep
  have hleft : ∀ i ∈ left, i < s.size := fun i hi =>
    ha.lt_size_of_mem_ancestors (hjoins.left_eq ▸ List.mem_append_left _ hi)
  have hright : ∀ i ∈ right, i < s.size := fun i hi =>
    hb.lt_size_of_mem_ancestors (hjoins.right_eq ▸ List.mem_append_left _ hi)
  refine ⟨?_, ?_, ⟨depth, h.deep htop⟩, ?_, h.notMem_map htop.id_lt_size hright hjoins.top_notMem⟩
  · rw [h.ancestors ha, h.ancestors htop, hjoins.left_eq, List.map_append]
  · rw [h.ancestors hb, h.ancestors htop, hjoins.right_eq, List.map_append]
  · rw [List.forall_mem_map, h.ancestors hb]
    intro i hi
    exact h.notMem_map (hleft i hi) (fun j => hb.lt_size_of_mem_ancestors)
      (hjoins.left_disjoint i hi)

end Renames

end Arena

end PathCorpus
