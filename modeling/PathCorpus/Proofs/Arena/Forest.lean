import Mathlib.Data.List.Perm.Subperm
import PathCorpus.Arena.Walk

/-!
# Forests of ids

The part of an arena that is a tree, with its links turned into structure. A forest is its first
tree and the trees beside it, and a tree is its top and the forest below, so one induction goes
down and sideways at once.

`Arena.LaysOut` says that an arena has the links of a forest. `Arena.Rooted` adds a root over a
forest in which no id occurs twice: that is what every walk from the root relies on.

## Main statements

- `Arena.Rooted.unique`: an arena has at most one root and one forest below it.
- `Arena.LaysOut.parent_of_mem_stops`: a stop is at the top or below its parent's stop.
-/

namespace PathCorpus

/-- An ordered forest of ids. -/
inductive Forest where
  | nil
  /-- The tree with the top `id` and `below` under it, and the trees after it. -/
  | cons (id : Nat) (below beside : Forest)
  deriving DecidableEq, Repr

namespace Forest

/-! ## §1: What a forest holds -/

/-- The tops of the trees. -/
def tops : Forest → List Nat
  | nil => []
  | cons id _ beside => id :: beside.tops

/-- All ids, in pre-order. -/
def ids : Forest → List Nat
  | nil => []
  | cons id below beside => id :: (below.ids ++ beside.ids)

/-- All ids in pre-order with their depths, when the tops have the depth given. -/
def stops (depth : Nat) : Forest → List Arena.Stop
  | nil => []
  | cons id below beside => ⟨id, depth⟩ :: (below.stops (depth + 1) ++ beside.stops depth)

@[simp] theorem map_id_stops (f : Forest) (depth : Nat) : (f.stops depth).map (·.id) = f.ids := by
  induction f generalizing depth with
  | nil => rfl
  | cons id below beside ihBelow ihBeside => simp [stops, ids, ihBelow, ihBeside]

theorem tops_subset_ids (f : Forest) : f.tops ⊆ f.ids := by
  induction f with
  | nil => simp [tops]
  | cons id below beside _ ihBeside =>
    intro i hi
    rcases List.mem_cons.mp hi with rfl | hi
    · simp [ids]
    · simp [ids, ihBeside hi]

/-- The stop of an id. -/
theorem exists_stop_of_mem_ids {f : Forest} {id : Nat} (depth : Nat) (h : id ∈ f.ids) :
    ∃ d, (⟨id, d⟩ : Arena.Stop) ∈ f.stops depth := by
  rw [← map_id_stops f depth] at h
  obtain ⟨⟨_, d⟩, hs, rfl⟩ := List.mem_map.mp h
  exact ⟨d, hs⟩

theorem mem_ids_of_mem_stops {f : Forest} {depth : Nat} {s : Arena.Stop} (h : s ∈ f.stops depth) :
    s.id ∈ f.ids := by
  rw [← map_id_stops f depth]
  exact List.mem_map_of_mem h

theorem mem_stops_of_mem_tops {f : Forest} {id : Nat} (depth : Nat) (h : id ∈ f.tops) :
    ⟨id, depth⟩ ∈ f.stops depth := by
  induction f with
  | nil => simp [tops] at h
  | cons top below beside _ ihBeside =>
    rcases List.mem_cons.mp h with rfl | h
    · simp [stops]
    · simp [stops, ihBeside h]

/-! ## §2: A forest as a list of trees -/

/-- The forest of some trees, each given by its top and the forest below. -/
def ofTrees : List (Nat × Forest) → Forest
  | [] => nil
  | (id, below) :: trees => cons id below (ofTrees trees)

@[simp] theorem tops_ofTrees (trees : List (Nat × Forest)) :
    (ofTrees trees).tops = trees.map Prod.fst := by
  induction trees with
  | nil => rfl
  | cons tree trees ih => simp [ofTrees, tops, ih]

theorem ids_ofTrees (trees : List (Nat × Forest)) :
    (ofTrees trees).ids = trees.flatMap fun tree => tree.1 :: tree.2.ids := by
  induction trees with
  | nil => rfl
  | cons tree trees ih => simp [ofTrees, ids, ih]

theorem exists_trees (f : Forest) : ∃ trees, f = ofTrees trees := by
  induction f with
  | nil => exact ⟨[], rfl⟩
  | cons id below beside _ ihBeside =>
    obtain ⟨trees, rfl⟩ := ihBeside
    exact ⟨(id, below) :: trees, rfl⟩

end Forest

namespace Arena

/-! ## §3: The forest of an arena -/

/-- The node `id` exists, `below` has its children as tops, and each of them names `id` as
its parent. -/
def Bears (t : Arena) (id : Nat) (below : Forest) : Prop :=
  id < t.size ∧ t.childIds id = below.tops ∧ ∀ child ∈ below.tops, t.parentId? child = some id

/-- The arena has the links of a forest. What the tops name as their parents is left open. -/
def LaysOut (t : Arena) : Forest → Prop
  | .nil => True
  | .cons id below beside => t.Bears id below ∧ t.LaysOut below ∧ t.LaysOut beside

/-- The arena names a root without parent, and what hangs below it is a forest of distinct ids. -/
structure Rooted (t : Arena) (root : Nat) (below : Forest) : Prop where
  named : t.root? = some root
  noParent : t.parentId? root = none
  laysOut : t.LaysOut (.cons root below .nil)
  nodup : (Forest.cons root below .nil).ids.Nodup

theorem laysOut_ofTrees {t : Arena} {trees : List (Nat × Forest)} :
    t.LaysOut (.ofTrees trees) ↔ ∀ tree ∈ trees, t.Bears tree.1 tree.2 ∧ t.LaysOut tree.2 := by
  induction trees with
  | nil => simp [Forest.ofTrees, LaysOut]
  | cons tree trees ih => simp [Forest.ofTrees, LaysOut, ih, and_assoc]

theorem exists_node_of_lt {t : Arena} {id : Nat} (h : id < t.size) : ∃ n, t.node? id = some n :=
  ⟨t.get ⟨id, h⟩, node?_eq_get t ⟨id, h⟩⟩

theorem childIds_eq_children {t : Arena} {id : Nat} {n : Node} (h : t.node? id = some n) :
    t.childIds id = n.children := by
  simp [childIds, h]

theorem parentId?_get (t : Arena) (id : Fin t.size) : t.parentId? id = (t.get id).parent? := by
  simp [parentId?, node?_eq_get]

theorem LaysOut.lt_size {t : Arena} {f : Forest} (h : t.LaysOut f) : ∀ id ∈ f.ids, id < t.size := by
  induction f with
  | nil => simp [Forest.ids]
  | cons id below beside ihBelow ihBeside =>
    obtain ⟨hid, hbelow, hbeside⟩ := h
    intro i hi
    simp only [Forest.ids, List.mem_cons, List.mem_append] at hi
    rcases hi with rfl | hi | hi
    · exact hid.1
    · exact ihBelow hbelow i hi
    · exact ihBeside hbeside i hi

/-- Above a stop there is the stop of its parent, unless it is one of the tops. -/
theorem LaysOut.parent_of_mem_stops {t : Arena} {f : Forest} {depth : Nat} {s : Stop}
    (h : t.LaysOut f) (hs : s ∈ f.stops depth) :
    (s.id ∈ f.tops ∧ s.depth = depth) ∨
      ∃ p ∈ f.stops depth, t.parentId? s.id = some p.id ∧ s.depth = p.depth + 1 := by
  induction f generalizing depth with
  | nil => simp [Forest.stops] at hs
  | cons id below beside ihBelow ihBeside =>
    obtain ⟨⟨_, _, hparent⟩, hbelow, hbeside⟩ := h
    simp only [Forest.stops, List.mem_cons, List.mem_append] at hs ⊢
    rcases hs with rfl | hs | hs
    · exact .inl ⟨by simp [Forest.tops], rfl⟩
    · right
      rcases ihBelow hbelow hs with ⟨htop, hdepth⟩ | ⟨p, hp, hparent', hdepth⟩
      · -- a top of what is below hangs right under `id`
        exact ⟨⟨id, depth⟩, .inl rfl, hparent _ htop, hdepth⟩
      · exact ⟨p, .inr (.inl hp), hparent', hdepth⟩
    · rcases ihBeside hbeside hs with ⟨htop, hdepth⟩ | ⟨p, hp, hparent', hdepth⟩
      · exact .inl ⟨by simp [Forest.tops, htop], hdepth⟩
      · exact .inr ⟨p, .inr (.inr hp), hparent', hdepth⟩

/-- The tops decide the whole forest. -/
theorem LaysOut.eq_of_tops_eq {t : Arena} {f g : Forest} (hf : t.LaysOut f) (hg : t.LaysOut g)
    (h : f.tops = g.tops) : f = g := by
  induction f generalizing g with
  | nil =>
    cases g with
    | nil => rfl
    | cons => simp [Forest.tops] at h
  | cons id below beside ihBelow ihBeside =>
    cases g with
    | nil => simp [Forest.tops] at h
    | cons id' below' beside' =>
      obtain ⟨rfl, hbesideTops⟩ : id = id' ∧ beside.tops = beside'.tops := by
        simpa [Forest.tops] using h
      obtain ⟨⟨_, hchildren, _⟩, hbelow, hbeside⟩ := hf
      obtain ⟨⟨_, hchildren', _⟩, hbelow', hbeside'⟩ := hg
      rw [ihBelow hbelow hbelow' (hchildren.symm.trans hchildren'),
        ihBeside hbeside hbeside' hbesideTops]

theorem Rooted.unique {t : Arena} {root root' : Nat} {below below' : Forest}
    (h : t.Rooted root below) (h' : t.Rooted root' below') : root = root' ∧ below = below' := by
  obtain rfl : root = root' := Option.some.inj (h.named.symm.trans h'.named)
  have := h.laysOut.eq_of_tops_eq h'.laysOut rfl
  exact ⟨rfl, by simpa using this⟩

theorem Rooted.root_lt_size {t : Arena} {root : Nat} {below : Forest} (h : t.Rooted root below) :
    root < t.size :=
  h.laysOut.1.1

/-- No more ids hang below the root than the arena has. -/
theorem Rooted.length_ids_le {t : Arena} {root : Nat} {below : Forest} (h : t.Rooted root below) :
    (Forest.cons root below .nil).ids.length ≤ t.size := by
  have hsub : (Forest.cons root below .nil).ids ⊆ List.range t.size := fun i hi =>
    List.mem_range.mpr (h.laysOut.lt_size i hi)
  simpa using (List.subperm_of_subset h.nodup hsub).length_le

end Arena

end PathCorpus
