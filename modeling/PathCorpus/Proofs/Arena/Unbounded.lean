import Mathlib.Data.List.Nodup
import PathCorpus.Arena.Unbounded
import PathCorpus.Proofs.Arena.Walk

/-!
# Walks without a bound end

The walk as a loop has no marks and no bound of its own. On a root over a forest it comes to an end
all the same: it goes through the forest as the bounded walk does, a tree at a time. So its tables
are what the bounded walk finds. In the table of depths the entry of a parent is there when it is
looked up, for the walk has come to the parent before, and no later write goes to the same place.

## Main statements

- `Arena.LaysOut.visitFrom`: the loop takes a forest out of the pending ids whole.
- `Arena.Rooted.orderTable`, `Arena.Rooted.leafTable`, `Arena.Rooted.depthTable`: what it fills.
-/

namespace PathCorpus.Arena

open Attempt (entry_eq put_eq)

variable {t : Arena} {root : Nat} {below : Forest} {σ : Type}

/-! ## §1: The loop -/

/-- What the walk does at an id. -/
def visitId (t : Arena) (visit : σ → Nat → Node → Attempt σ) (known : σ) (id : Nat) : Attempt σ :=
  match t.node? id with
  | some n => visit known id n
  | none => pure known

/-- The loop goes through a forest first and then on with what was pending besides. -/
theorem LaysOut.visitFrom {f : Forest} (h : t.LaysOut f) (visit : σ → Nat → Node → Attempt σ)
    (pending : List Nat) (known : σ) :
    t.visitFrom visit (f.tops ++ pending) known =
      f.ids.foldlM (t.visitId visit) known >>= t.visitFrom visit pending := by
  induction f generalizing pending known with
  | nil => simp [Forest.tops, Forest.ids]
  | cons id below beside ihBelow ihBeside =>
    obtain ⟨⟨hid, hchildren, _⟩, hbelow, hbeside⟩ := h
    obtain ⟨n, hn⟩ := exists_node_of_lt hid
    rw [childIds_eq_children hn] at hchildren
    have hvisit : t.visitId visit known id = visit known id n := by rw [visitId, hn]
    rw [Forest.tops, List.cons_append, visitFrom_cons hn]
    simp only [Forest.ids, List.foldlM_cons, List.foldlM_append, hvisit, bind_assoc]
    -- the children go in front of the trees beside, so they come first
    refine congrArg _ (funext fun known => ?_)
    rw [hchildren, ihBelow hbelow]
    exact congrArg _ (funext fun known => ihBeside hbeside pending known)

theorem Rooted.visitAll (h : t.Rooted root below) (visit : σ → Nat → Node → Attempt σ) (known : σ) :
    t.visitAll visit known = t.preOrder.foldlM (t.visitId visit) known := by
  have hloop := h.laysOut.visitFrom visit [] known
  have hend : t.visitFrom visit [] = pure := funext (t.visitFrom_nil visit)
  rw [← h.preOrder, hend, bind_pure] at hloop
  rw [Arena.visitAll, h.named]
  exact hloop

/-! ## §2: Ids and leaves -/

/-- Steps that all succeed, one after another. -/
private theorem foldlM_eq_pure {α : Type} {as : List α} {step : σ → α → Attempt σ}
    {next : σ → α → σ}
    (h : ∀ known, ∀ a ∈ as, step known a = pure (next known a)) (known : σ) :
    as.foldlM step known = pure (as.foldl next known) := by
  induction as generalizing known with
  | nil => rfl
  | cons a as ih =>
    rw [List.foldlM_cons, h known a List.mem_cons_self, pure_bind, List.foldl_cons]
    exact ih (fun known a ha => h known a (List.mem_cons_of_mem _ ha)) _

/-- The ids that a walk meets are those of nodes. -/
theorem Rooted.exists_node_of_mem_preOrder (h : t.Rooted root below) {id : Nat}
    (hid : id ∈ t.preOrder) : ∃ n, t.node? id = some n := by
  rw [h.preOrder] at hid
  exact exists_node_of_lt (h.laysOut.lt_size id hid)

theorem Rooted.orderTable (h : t.Rooted root below) :
    t.orderTable = pure t.preOrder.toArray := by
  have hvisit : ∀ known : Array Nat, ∀ id ∈ t.preOrder,
      t.visitId (fun ids id _ => pure (ids.push id)) known id = pure (known.push id) := by
    intro known id hid
    obtain ⟨n, hn⟩ := h.exists_node_of_mem_preOrder hid
    rw [visitId, hn]
  rw [Arena.orderTable, h.visitAll, foldlM_eq_pure hvisit, List.foldl_push_eq_append]
  simp

theorem Rooted.leafTable (h : t.Rooted root below) : t.leafTable = pure t.leaves.toArray := by
  have hvisit : ∀ known : Array Nat, ∀ id ∈ t.preOrder,
      t.visitId (fun ids id n => pure (if n.isTerminal then ids.push id else ids)) known id =
        pure (if t.isTerminal id then known.push id else known) := by
    intro known id hid
    obtain ⟨n, hn⟩ := h.exists_node_of_mem_preOrder hid
    simp [visitId, isTerminal, hn]
  rw [Arena.leafTable, h.visitAll, foldlM_eq_pure hvisit, leaves, ← List.foldl_filter,
    List.foldl_push_eq_append]
  simp

/-! ## §3: Depths -/

/-- In a forest below a node whose depth is written, all depths get written, each one more than that
of the parent. -/
theorem LaysOut.foldlM_writeDepth {f : Forest} (h : t.LaysOut f) (hnodup : f.ids.Nodup)
    {parent depth : Nat} (hparents : ∀ top ∈ f.tops, t.parentId? top = some parent)
    (hparent : parent ∉ f.ids) {depths : Array Nat} (hsize : depths.size = t.size)
    (hdepth : depths[parent]? = some depth) :
    f.ids.foldlM (t.visitId writeDepth) depths = pure ((f.stops (depth + 1)).foldl
      (fun depths s => depths.setIfInBounds s.id s.depth) depths) := by
  induction f generalizing parent depth depths with
  | nil => rfl
  | cons id below beside ihBelow ihBeside =>
    obtain ⟨⟨hid, _, hparents'⟩, hbelow, hbeside⟩ := h
    simp only [Forest.ids, List.nodup_cons, List.nodup_append', List.mem_append, not_or] at hnodup
    simp only [Forest.ids, List.mem_cons, List.mem_append, not_or] at hparent
    obtain ⟨⟨hidBelow, -⟩, hnodupBelow, hnodupBeside, -⟩ := hnodup
    obtain ⟨hne, hparentBelow, hparentBeside⟩ := hparent
    rw [Forest.tops, List.forall_mem_cons] at hparents
    obtain ⟨n, hn⟩ := exists_node_of_lt hid
    have hnparent : n.parent? = some parent := by simpa [parentId?, hn] using hparents.1
    -- the depth written here is what the trees below rely on
    have hwrite : t.visitId writeDepth depths id = pure (depths.setIfInBounds id (depth + 1)) := by
      have hput := put_eq (show id < depths.size by omega) (depth + 1)
      simp only [visitId, hn, writeDepth, hnparent, entry_eq hdepth, pure_bind, hput]
    have hsizeBelow : (depths.setIfInBounds id (depth + 1)).size = t.size := by
      rw [Array.size_setIfInBounds, hsize]
    have hdepthBelow : (depths.setIfInBounds id (depth + 1))[id]? = some (depth + 1) := by
      simp [hsize, hid]
    rw [Forest.ids, List.foldlM_cons, hwrite, pure_bind, List.foldlM_append,
      ihBelow hbelow hnodupBelow hparents' hidBelow hsizeBelow hdepthBelow, pure_bind, Forest.stops,
      List.foldl_cons, List.foldl_append]
    -- what is written below leaves the entry of the parent as it is
    refine ihBeside hbeside hnodupBeside hparents.2 hparentBeside ?_ ?_
    · rw [size_writeDepths, hsizeBelow]
    · rw [(getElem?_writeDepths _ _ (by rwa [Forest.map_id_stops]) parent).2
        (by rwa [Forest.map_id_stops]), Array.getElem?_setIfInBounds_ne (Ne.symm hne), hdepth]

theorem Rooted.depthTable (h : t.Rooted root below) : t.depthTable = pure t.depths := by
  obtain ⟨⟨hroot, _, hparents⟩, hbelow, -⟩ := h.laysOut
  have hnodup := h.nodup
  rw [Forest.ids, Forest.ids, List.append_nil, List.nodup_cons] at hnodup
  obtain ⟨n, hn⟩ := exists_node_of_lt hroot
  have hnparent : n.parent? = none := by simpa [parentId?, hn] using h.noParent
  have hzeros : ∀ depths : Array Nat, t.visitId writeDepth depths root = pure depths := by
    intro depths
    rw [visitId, hn]
    dsimp only
    rw [writeDepth, hnparent]
  -- the root has no depth written, and the zero that it has from the start is right
  have hsame : (Array.replicate t.size 0).setIfInBounds root 0 = Array.replicate t.size 0 := by
    ext i <;> simp
  rw [Arena.depthTable, h.visitAll, h.preOrder, depths, h.walk (Nat.le_refl _), Forest.ids,
    Forest.ids, List.append_nil, List.foldlM_cons, hzeros, pure_bind, Forest.stops, Forest.stops,
    List.append_nil, List.foldl_cons, hsame]
  refine hbelow.foldlM_writeDepth hnodup.2 hparents hnodup.1 (Array.size_replicate ..) ?_
  simp [hroot]

end PathCorpus.Arena
