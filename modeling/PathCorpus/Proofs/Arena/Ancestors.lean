import PathCorpus.Proofs.Arena.Walk

/-!
# Ancestors

The nodes above a node, found by going from parent to parent. Where such a chain ends at the root,
its length is the depth of the node, and two chains that come together stay together: the node at
which they come together is the lowest one that both nodes have above them.

## Main statements

- `Arena.Deep.lt_size`: a chain to the root has fewer links than the arena has nodes.
- `Arena.Rooted.deep_of_mem_stops`: the depth on a walk is the length of the chain.
- `Arena.ancestors_of_link`: the chain of a node is the node and the chain of its parent.
-/

namespace PathCorpus.Arena

variable {t : Arena} {root id id' parent depth depth' : Nat} {below : Forest}

/-! ## §1: Depth by parents -/

/-- Going from parent to parent, `id` is `depth` links away from the root. -/
inductive Deep (t : Arena) : (id depth : Nat) → Prop
  | root {root : Nat} (named : t.root? = some root) (exists_root : root < t.size)
      (noParent : t.parentId? root = none) : Deep t root 0
  | link {id parent depth : Nat} (isParent : t.parentId? id = some parent)
      (deep : Deep t parent depth) : Deep t id (depth + 1)

theorem Deep.depth_unique (h : t.Deep id depth) (h' : t.Deep id depth') : depth = depth' := by
  induction h generalizing depth' with
  | root _ _ noParent =>
    cases h' with
    | root => rfl
    | link isParent => simp [noParent] at isParent
  | link isParent _ ih =>
    cases h' with
    | root _ _ noParent => simp [noParent] at isParent
    | link isParent' deep' =>
      obtain rfl := Option.some.inj (isParent.symm.trans isParent')
      rw [ih deep']

/-- Only the root has depth zero. -/
theorem Deep.eq_of_zero (h : t.Deep id 0) (h' : t.Deep id' 0) : id = id' := by
  cases h with
  | root named =>
    cases h' with
    | root named' => exact Option.some.inj (named.symm.trans named')

theorem Deep.exists_parent (h : t.Deep id (depth + 1)) :
    ∃ parent, t.parentId? id = some parent ∧ t.Deep parent depth := by
  cases h with
  | link isParent deep => exact ⟨_, isParent, deep⟩

theorem lt_size_of_parentId? (h : t.parentId? id = some parent) : id < t.size := by
  by_contra hlt
  have hnone : t.node? id = none := node?_eq_none.mpr (Nat.le_of_not_lt hlt)
  simp [parentId?, hnone] at h

theorem Deep.id_lt_size (h : t.Deep id depth) : id < t.size := by
  cases h with
  | root _ exists_root => exact exists_root
  | link isParent => exact lt_size_of_parentId? isParent

/-- On a root over a forest the depth of a stop is that of its chain of parents. -/
theorem Rooted.deep_of_mem_stops (h : t.Rooted root below) {s : Stop}
    (hs : s ∈ (Forest.cons root below .nil).stops 0) : t.Deep s.id s.depth := by
  -- by induction on the depth, since the parent of a stop is one link nearer to the root
  induction hd : s.depth generalizing s with
  | zero =>
    rcases h.laysOut.parent_of_mem_stops hs with ⟨htop, _⟩ | ⟨p, _, _, hdepth⟩
    · obtain rfl : s.id = root := by simpa [Forest.tops] using htop
      exact .root h.named h.root_lt_size h.noParent
    · omega
  | succ depth ih =>
    rcases h.laysOut.parent_of_mem_stops hs with ⟨_, hdepth⟩ | ⟨p, hp, hparent, hdepth⟩
    · omega
    · exact .link hparent (ih hp (by omega))

/-! ## §2: Chains -/

/-- A node, its parent, the parent of that, and so on, as far as `links` links reach. -/
def ancestorsWithin (t : Arena) : (links : Nat) → (id : Nat) → List Nat
  | 0, id => [id]
  | links + 1, id =>
    match t.parentId? id with
    | some parent => id :: t.ancestorsWithin links parent
    | none => [id]

/-- A node and all nodes above it, from the node up to the root. -/
def ancestors (t : Arena) (id : Nat) : List Nat := t.ancestorsWithin t.size id

theorem Deep.ancestorsWithin_eq (h : t.Deep id depth) {links : Nat} (hlinks : depth ≤ links) :
    t.ancestorsWithin links id = t.ancestorsWithin depth id := by
  induction h generalizing links with
  | root _ _ noParent =>
    cases links with
    | zero => rfl
    | succ links => simp [ancestorsWithin, noParent]
  | link isParent _ ih =>
    -- each link uses up one of those allowed, so there are enough left for the parent
    obtain ⟨links, rfl⟩ : ∃ l, links = l + 1 := ⟨links - 1, by omega⟩
    simp only [ancestorsWithin, isParent]
    rw [ih (by omega)]

/-- A chain to the root has one node more than it has links, all different and all in the arena. -/
private theorem Deep.ancestorsWithin_spec (h : t.Deep id depth) :
    (t.ancestorsWithin depth id).length = depth + 1 ∧ (t.ancestorsWithin depth id).Nodup ∧
      ∀ a ∈ t.ancestorsWithin depth id, ∃ e ≤ depth, t.Deep a e := by
  induction h with
  | @root root named exists_root noParent =>
    refine ⟨rfl, by simp [ancestorsWithin], ?_⟩
    intro a ha
    obtain rfl : a = root := by simpa [ancestorsWithin] using ha
    exact ⟨0, Nat.le_refl _, .root named exists_root noParent⟩
  | @link id parent depth isParent deep ih =>
    obtain ⟨hlength, hnodup, hdeep⟩ := ih
    have hself : t.Deep id (depth + 1) := .link isParent deep
    simp only [ancestorsWithin, isParent, List.length_cons, hlength, List.nodup_cons, hnodup,
      and_true, List.mem_cons, true_and]
    constructor
    · -- everything above has a smaller depth
      intro hmem
      obtain ⟨e, he, hdeep'⟩ := hdeep id hmem
      have := hself.depth_unique hdeep'
      omega
    · rintro a (rfl | ha)
      · exact ⟨depth + 1, Nat.le_refl _, hself⟩
      · obtain ⟨e, he, hdeep'⟩ := hdeep a ha
        exact ⟨e, by omega, hdeep'⟩

theorem Deep.lt_size (h : t.Deep id depth) : depth < t.size := by
  -- the chain is a list of different ids in use
  obtain ⟨hlength, hnodup, hdeep⟩ := h.ancestorsWithin_spec
  have hsub : t.ancestorsWithin depth id ⊆ List.range t.size := fun a ha => by
    obtain ⟨_, _, hdeep'⟩ := hdeep a ha
    exact List.mem_range.mpr hdeep'.id_lt_size
  have hle := (List.subperm_of_subset hnodup hsub).length_le
  rw [hlength, List.length_range] at hle
  omega

theorem Deep.ancestors_eq (h : t.Deep id depth) :
    t.ancestors id = t.ancestorsWithin depth id :=
  h.ancestorsWithin_eq (Nat.le_of_lt h.lt_size)

theorem ancestors_of_root (h : t.Deep id 0) : t.ancestors id = [id] := by
  rw [h.ancestors_eq, ancestorsWithin]

theorem ancestors_of_link (isParent : t.parentId? id = some parent) (h : t.Deep parent depth) :
    t.ancestors id = id :: t.ancestors parent := by
  rw [(Deep.link isParent h).ancestors_eq, h.ancestors_eq, ancestorsWithin, isParent]

/-- The chain starts at the node. -/
theorem Deep.exists_ancestors_cons (h : t.Deep id depth) :
    ∃ above, t.ancestors id = id :: above := by
  cases h with
  | root named exists_root noParent =>
    exact ⟨[], ancestors_of_root (.root named exists_root noParent)⟩
  | link isParent deep => exact ⟨_, ancestors_of_link isParent deep⟩

theorem Deep.self_mem_ancestors (h : t.Deep id depth) : id ∈ t.ancestors id := by
  obtain ⟨above, habove⟩ := h.exists_ancestors_cons
  simp [habove]

/-- The chain ends at the root. -/
theorem Deep.getLast?_ancestors (h : t.Deep id depth) (named : t.root? = some root) :
    (t.ancestors id).getLast? = some root := by
  induction h with
  | root named' exists_root noParent =>
    obtain rfl := Option.some.inj (named'.symm.trans named)
    rw [ancestors_of_root (.root named exists_root noParent), List.getLast?_singleton]
  | link isParent deep ih =>
    rw [ancestors_of_link isParent deep, List.getLast?_cons, ih, Option.getD_some]

/-- No node comes twice in a chain. -/
theorem Deep.nodup_ancestors (h : t.Deep id depth) : (t.ancestors id).Nodup := by
  rw [h.ancestors_eq]
  exact h.ancestorsWithin_spec.2.1

/-- The nodes of a chain are nearer to the root than the node itself. -/
theorem Deep.of_mem_ancestors {a : Nat} (h : t.Deep id depth) (ha : a ∈ t.ancestors id) :
    ∃ e ≤ depth, t.Deep a e := by
  rw [h.ancestors_eq] at ha
  exact h.ancestorsWithin_spec.2.2 a ha

theorem Deep.lt_size_of_mem_ancestors {a : Nat} (h : t.Deep id depth) (ha : a ∈ t.ancestors id) :
    a < t.size := by
  obtain ⟨_, _, hdeep⟩ := h.of_mem_ancestors ha
  exact hdeep.id_lt_size

/-- A node of the same depth is on the chain only if it is the node itself. -/
theorem Deep.eq_of_mem_ancestors {a : Nat} (h : t.Deep id depth) (ha : a ∈ t.ancestors id)
    (ha' : t.Deep a depth) : a = id := by
  cases h with
  | root named exists_root noParent =>
    simpa [ancestors_of_root (.root named exists_root noParent)] using ha
  | @link _ parent depth isParent deep =>
    rw [ancestors_of_link isParent deep] at ha
    rcases List.mem_cons.mp ha with rfl | ha
    · rfl
    · obtain ⟨e, he, hdeep⟩ := deep.of_mem_ancestors ha
      have := ha'.depth_unique hdeep
      omega

/-! ## §3: The lowest common ancestor -/

/-- The first node above `a` that is above `b` too. -/
def lowestCommon? (t : Arena) (a b : Nat) : Option Nat :=
  (t.ancestors a).find? (· ∈ t.ancestors b)

/-- Two chains come together at `top`: `left` and `right` are what they have below it, and nothing
in `left` is above `b`, nor `top` in `right`. -/
structure Joins (t : Arena) (a b : Nat) (left : List Nat) (top : Nat) (right : List Nat) :
    Prop where
  left_eq : t.ancestors a = left ++ t.ancestors top
  right_eq : t.ancestors b = right ++ t.ancestors top
  deep : ∃ depth, t.Deep top depth
  left_disjoint : ∀ x ∈ left, x ∉ t.ancestors b
  top_notMem : top ∉ right

namespace Joins

variable {a b top : Nat} {left right : List Nat}

theorem top_mem (h : t.Joins a b left top right) : top ∈ t.ancestors a ∧ top ∈ t.ancestors b := by
  obtain ⟨_, hdeep⟩ := h.deep
  rw [h.left_eq, h.right_eq]
  simp [hdeep.self_mem_ancestors]

theorem lowestCommon? (h : t.Joins a b left top right) : t.lowestCommon? a b = some top := by
  obtain ⟨_, hdeep⟩ := h.deep
  obtain ⟨above, habove⟩ := hdeep.exists_ancestors_cons
  -- the search passes over `left` and stops at its first node after that
  have hleft : left.find? (· ∈ t.ancestors b) = none :=
    List.find?_eq_none.mpr fun x hx => by simpa using h.left_disjoint x hx
  rw [Arena.lowestCommon?, h.left_eq, List.find?_append, hleft, habove]
  simp [h.top_mem.2]

/-- Whatever is above both nodes is above the place where their chains come together. -/
theorem mem_ancestors_top (h : t.Joins a b left top right) {x : Nat} (ha : x ∈ t.ancestors a)
    (hb : x ∈ t.ancestors b) : x ∈ t.ancestors top := by
  rw [h.left_eq, List.mem_append] at ha
  rcases ha with ha | ha
  · exact absurd hb (h.left_disjoint x ha)
  · exact ha

private theorem takeWhile_append_of_notMem {xs ys : List Nat} {y : Nat} (h : y ∉ xs) :
    (xs ++ y :: ys).takeWhile (· ≠ y) = xs := by
  rw [List.takeWhile_append_of_pos]
  · simp
  · intro x hx
    simpa using fun e : x = y => h (e ▸ hx)

theorem takeWhile_left (h : t.Joins a b left top right) :
    (t.ancestors a).takeWhile (· ≠ top) = left := by
  obtain ⟨_, hdeep⟩ := h.deep
  obtain ⟨above, habove⟩ := hdeep.exists_ancestors_cons
  rw [h.left_eq, habove]
  exact takeWhile_append_of_notMem fun hmem => h.left_disjoint top hmem h.top_mem.2

theorem takeWhile_right (h : t.Joins a b left top right) :
    (t.ancestors b).takeWhile (· ≠ top) = right := by
  obtain ⟨_, hdeep⟩ := h.deep
  obtain ⟨above, habove⟩ := hdeep.exists_ancestors_cons
  rw [h.right_eq, habove]
  exact takeWhile_append_of_notMem h.top_notMem

end Joins

end PathCorpus.Arena
