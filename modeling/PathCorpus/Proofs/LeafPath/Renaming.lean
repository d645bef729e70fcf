import PathCorpus.Proofs.Arena.Renaming
import PathCorpus.Proofs.LeafPath.Exact

/-!
# Paths under other ids

A path through an arena is a path through the arena with other ids, when its own ids are exchanged
too. It has the same length and the same context. So the searches of both arenas come to the same
contexts, in one order.

## Main statements

- `Arena.Renames.pathsWithin`: the paths within bounds.
- `Arena.contexts_eq`: the contexts of a tree, from its paths.
- `Arena.Renames.contexts`: the contexts of both arenas.
-/

namespace PathCorpus

variable {φ : Nat → Nat}

/-! ## §1: Paths -/

namespace LeafPath

/-- The path with other ids. -/
def map (φ : Nat → Nat) (p : LeafPath) : LeafPath where
  start := φ p.start
  upward := p.upward.map φ
  top := φ p.top
  downward := p.downward.map φ
  finish := φ p.finish

@[simp] theorem height_map (p : LeafPath) : (p.map φ).height = p.height := by
  simp [map, height]

end LeafPath

/-- Pairs are made of places, and places stay. -/
theorem pairsFrom_map (width : Limit) (leaves : List Nat) :
    pairsFrom width (leaves.map φ) = (pairsFrom width leaves).map (Prod.map φ φ) := by
  induction leaves with
  | nil => rfl
  | cons a later ih =>
    rw [List.map_cons, pairsFrom, pairsFrom, width.take_map, ih, List.map_append, List.map_map,
      List.map_map]
    rfl

namespace Arena

variable {s t : Arena} {root : Nat} {below : Forest}

namespace Renames

theorem joining? (h : Renames φ s t) {a b d e : Nat} (ha : s.Deep a d) (hb : s.Deep b e) :
    t.joining? (φ a) (φ b) = (s.joining? a b).map (LeafPath.map φ) := by
  obtain ⟨left, top, right, _, hjoins⟩ := ha.exists_pathBetween? hb
  rw [hjoins.joining?, (h.joins ha hb hjoins).joining?, Option.map_some, LeafPath.map,
    List.map_reverse]

/-- The paths of the one arena are those of the other, in order. -/
theorem pathsWithin (h : Renames φ s t) (hs : s.Rooted root below) (bounds : PathBounds) :
    t.pathsWithin bounds = (s.pathsWithin bounds).map (LeafPath.map φ) := by
  have ht := h.rooted hs
  rw [Arena.pathsWithin, Arena.pathsWithin, ht.named, hs.named]
  dsimp only
  rw [leafPairs_eq_pairsFrom, leafPairs_eq_pairsFrom, ← ht.leaves_eq, ← hs.leaves_eq, h.leaves hs,
    pairsFrom_map, List.filterMap_map, List.map_filterMap]
  refine List.filterMap_congr fun pair hpair => ?_
  -- both judge a pair of leaves by a path, and the paths have the same length
  obtain ⟨ha, hb⟩ := mem_of_mem_pairsFrom hpair
  obtain ⟨d, _, hadeep⟩ := hs.exists_depth_of_mem_leaves ha
  obtain ⟨e, _, hbdeep⟩ := hs.exists_depth_of_mem_leaves hb
  show ((t.joining? (φ pair.1) (φ pair.2)).filter _) = _
  rw [h.joining? hadeep hbdeep]
  cases s.joining? pair.1 pair.2 with
  | none => rfl
  | some p =>
    simp only [Option.map_some, Option.filter_some, LeafPath.height_map]
    split <;> rfl

/-! ## §2: Contexts -/

theorem mapM_label? (h : Renames φ s t) {ids : List Nat} (hids : ∀ id ∈ ids, id < s.size) :
    (ids.map φ).mapM t.label? = ids.mapM s.label? := by
  induction ids with
  | nil => rfl
  | cons id ids ih =>
    rw [List.forall_mem_cons] at hids
    rw [List.map_cons, List.mapM_cons, List.mapM_cons, h.label? hids.1, ih hids.2]

/-- A path has the labels and tokens that it has under other ids. -/
theorem context? (h : Renames φ s t) {p : LeafPath} (hstart : p.start < s.size)
    (hnodes : ∀ id ∈ p.nodes, id < s.size) (hfinish : p.finish < s.size) :
    (p.map φ).context? t = p.context? s := by
  simp only [LeafPath.nodes, List.forall_mem_append, List.forall_mem_cons] at hnodes
  obtain ⟨hup, htop, hdown⟩ := hnodes
  simp only [LeafPath.context?, LeafPath.shape?, LeafPath.map, h.tokenText? hstart,
    h.tokenText? hfinish, h.label? htop, h.mapM_label? hup, h.mapM_label? hdown]

end Renames

/-- The contexts of a tree are those of its paths, as many as the limit lets through. -/
theorem Rooted.contexts_eq (h : t.Rooted root below) (hcheck : t.check = .ok ())
    (bounds : PathBounds) (limit : Limit) :
    t.contexts bounds limit =
      .ok ((limit.take (t.pathsWithin bounds)).filterMap (·.context? t)) := by
  obtain ⟨search, hsearch, _, _, hleft⟩ := h.left_search hcheck bounds
  rw [contexts, hsearch, Except.map, search.upTo_eq, search.toList_eq, hleft]

/-- Two trees with the same nodes under different ids have the same contexts in the same order. -/
theorem Renames.contexts (h : Renames φ s t) (hs : s.check = .ok ()) (ht : t.check = .ok ())
    (bounds : PathBounds) (limit : Limit) : t.contexts bounds limit = s.contexts bounds limit := by
  obtain ⟨root, below, hrooted, _⟩ := check_eq_ok_iff.mp hs
  rw [(h.rooted hrooted).contexts_eq ht, hrooted.contexts_eq hs, h.pathsWithin hrooted,
    limit.take_map, List.filterMap_map]
  refine congrArg Except.ok (List.filterMap_congr fun p hp => ?_)
  obtain ⟨hstart, hnodes, hfinish⟩ := hrooted.lt_size_of_mem_pathsWithin (Limit.mem_of_mem_take hp)
  exact h.context? hstart hnodes hfinish

end Arena

end PathCorpus
