import PathCorpus.Proofs.Arena.Check

/-!
# What a walk finds

A walk over an arena that lays out a forest meets the stops of the forest in their order. So on a
root over a forest the walk, which only knows a list of pending ids, agrees with the recursion over
nodes and children, and the table of depths holds what the recursion gives.

## Main statements

- `Arena.LaysOut.walkFrom`: the walk takes a forest out of the pending ids whole.
- `Arena.Rooted.preOrder_eq_preOrderWithin`: the walk and the recursion agree.
- `Arena.Rooted.getElem?_depths`: the table of depths.
-/

namespace PathCorpus.Arena

variable {t : Arena} {root : Nat} {below : Forest}

/-! ## §1: The stops of a walk -/

@[simp] theorem walkFrom_nil (steps : Nat) : t.walkFrom steps [] = [] := by
  cases steps <;> rfl

/-- The walk goes through a forest first and then on with what was pending besides. -/
theorem LaysOut.walkFrom {f : Forest} (h : t.LaysOut f) (depth steps : Nat) (pending : List Stop) :
    t.walkFrom (f.ids.length + steps) (f.tops.map (⟨·, depth⟩) ++ pending) =
      f.stops depth ++ t.walkFrom steps pending := by
  induction f generalizing depth steps pending with
  | nil => simp [Forest.ids, Forest.tops, Forest.stops]
  | cons id below beside ihBelow ihBeside =>
    obtain ⟨⟨hid, hchildren, _⟩, hbelow, hbeside⟩ := h
    obtain ⟨n, hn⟩ := exists_node_of_lt hid
    rw [childIds_eq_children hn] at hchildren
    -- one step for the top, then the steps for what is below it, then those for what is beside
    have hsteps : (Forest.cons id below beside).ids.length + steps =
        below.ids.length + (beside.ids.length + steps) + 1 := by
      simp [Forest.ids]
      omega
    rw [hsteps]
    simp only [Forest.tops, List.map_cons, List.cons_append, Arena.walkFrom, hn, hchildren,
      Forest.stops, List.append_assoc]
    rw [ihBelow hbelow, ihBeside hbeside]

/-- From the root the walk meets every stop, if it may take steps enough. -/
theorem Rooted.walk (h : t.Rooted root below) {steps : Nat} (hsteps : t.size ≤ steps) :
    t.walk steps = (Forest.cons root below .nil).stops 0 := by
  -- the steps that are more than there are ids find nothing pending
  have hle := Nat.le_trans h.length_ids_le hsteps
  obtain ⟨more, rfl⟩ := Nat.exists_eq_add_of_le hle
  have := h.laysOut.walkFrom 0 more []
  simpa [Arena.walk, h.named, Forest.tops] using this

theorem Rooted.preOrder (h : t.Rooted root below) :
    t.preOrder = (Forest.cons root below .nil).ids := by
  rw [Arena.preOrder, preOrderUpTo, h.walk (Nat.le_refl _), Forest.map_id_stops]

/-! ## §2: The recursive order -/

/-- The ids at and below a node, each node before its children and the children in order, as far as
`levels` levels reach. -/
def preOrderWithin (t : Arena) : (levels : Nat) → (id : Nat) → List Nat
  | 0, _ => []
  | levels + 1, id => id :: (t.childIds id).flatMap (t.preOrderWithin levels)

/-- There are no more levels than ids, so the recursion over a forest is not cut off. -/
theorem LaysOut.flatMap_preOrderWithin {f : Forest} (h : t.LaysOut f) {levels : Nat}
    (hlevels : f.ids.length ≤ levels) : f.tops.flatMap (t.preOrderWithin levels) = f.ids := by
  induction f generalizing levels with
  | nil => simp [Forest.tops, Forest.ids]
  | cons id below beside ihBelow ihBeside =>
    obtain ⟨⟨_, hchildren, _⟩, hbelow, hbeside⟩ := h
    simp only [Forest.ids, List.length_cons, List.length_append] at hlevels
    obtain ⟨levels, rfl⟩ : ∃ l, levels = l + 1 := ⟨levels - 1, by omega⟩
    have hdown : t.preOrderWithin (levels + 1) id = id :: below.ids := by
      rw [preOrderWithin, hchildren, ihBelow hbelow (by omega)]
    simp [Forest.tops, Forest.ids, hdown, ihBeside hbeside (show _ ≤ levels + 1 by omega)]

theorem Rooted.preOrder_eq_preOrderWithin (h : t.Rooted root below) :
    t.preOrder = t.preOrderWithin t.size root := by
  have := h.laysOut.flatMap_preOrderWithin h.length_ids_le
  simpa [h.preOrder, Forest.tops] using this.symm

/-! ## §3: Depths -/

/-- Writing depths one after another, each under an id of its own. -/
theorem getElem?_writeDepths (ds : Array Nat) (stops : List Stop)
    (hnodup : (stops.map (·.id)).Nodup) (i : Nat) :
    (∀ s ∈ stops, s.id = i → i < ds.size →
      (stops.foldl (fun ds s => ds.setIfInBounds s.id s.depth) ds)[i]? = some s.depth) ∧
    (i ∉ stops.map (·.id) →
      (stops.foldl (fun ds s => ds.setIfInBounds s.id s.depth) ds)[i]? = ds[i]?) := by
  induction stops generalizing ds with
  | nil => simp
  | cons s stops ih =>
    rw [List.map_cons, List.nodup_cons] at hnodup
    obtain ⟨ihWritten, ihKept⟩ := ih (ds.setIfInBounds s.id s.depth) hnodup.2
    simp only [List.foldl_cons]
    constructor
    · intro s' hs' hid hlt
      rcases List.mem_cons.mp hs' with rfl | hs'
      · -- no later stop has the same id
        rw [ihKept (hid ▸ hnodup.1), ← hid]
        simp [hid, hlt]
      · exact ihWritten s' hs' hid (by simpa using hlt)
    · intro hi
      rw [List.map_cons, List.mem_cons, not_or] at hi
      rw [ihKept hi.2, Array.getElem?_setIfInBounds_ne (Ne.symm hi.1)]

theorem size_writeDepths (depths : Array Nat) (stops : List Stop) :
    (stops.foldl (fun depths s => depths.setIfInBounds s.id s.depth) depths).size =
      depths.size := by
  induction stops generalizing depths with
  | nil => rfl
  | cons s stops ih => rw [List.foldl_cons, ih, Array.size_setIfInBounds]

/-- The table of depths holds the depth of every stop. -/
theorem Rooted.getElem?_depths (h : t.Rooted root below) {s : Stop}
    (hs : s ∈ (Forest.cons root below .nil).stops 0) : t.depths[s.id]? = some s.depth := by
  have hnodup : (((Forest.cons root below .nil).stops 0).map (·.id)).Nodup := by
    rw [Forest.map_id_stops]
    exact h.nodup
  have hlt : s.id < t.size := h.laysOut.lt_size s.id (Forest.mem_ids_of_mem_stops hs)
  rw [depths, h.walk (Nat.le_refl _)]
  exact (getElem?_writeDepths _ _ hnodup s.id).1 s hs rfl (by simpa using hlt)

end PathCorpus.Arena
