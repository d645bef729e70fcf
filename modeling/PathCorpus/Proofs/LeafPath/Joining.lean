import PathCorpus.LeafPath.Basic
import PathCorpus.Proofs.Arena.Ancestors

/-!
# The path between two nodes

The path between two nodes can be read off their chains of ancestors: it leaves the first chain
at the lowest common ancestor and follows the second one back. The climb gets there without the
chains. It first brings the deeper node up to the depth of the other, and then goes up on both
sides at once; equal depths make sure that the two sides cannot miss each other.

## Main statements

- `Arena.pathBetween?_eq_joining?`: the climb finds the path of the two chains.
- `Arena.exists_joining?`: there always is one, through the lowest common ancestor.
-/

namespace PathCorpus.Arena

variable {t : Arena} {a b depth depth' : Nat}

/-! ## §1: The path of two chains -/

/-- The path from `a` up to the lowest common ancestor and down to `b`. -/
def joining? (t : Arena) (a b : Nat) : Option LeafPath :=
  (t.lowestCommon? a b).map fun top =>
    { start := a
      upward := (t.ancestors a).takeWhile (· ≠ top)
      top
      downward := ((t.ancestors b).takeWhile (· ≠ top)).reverse
      finish := b }

/-- `top` is above both nodes, and so is nothing but what is above `top`. -/
structure IsLowestCommon (t : Arena) (a b top : Nat) : Prop where
  left : top ∈ t.ancestors a
  right : top ∈ t.ancestors b
  lowest : ∀ c ∈ t.ancestors a, c ∈ t.ancestors b → c ∈ t.ancestors top

theorem Joins.joining? {left right : List Nat} {top : Nat} (h : t.Joins a b left top right) :
    t.joining? a b = some ⟨a, left, top, right.reverse, b⟩ := by
  rw [Arena.joining?, h.lowestCommon?, Option.map_some, h.takeWhile_left, h.takeWhile_right]

theorem Joins.isLowestCommon {left right : List Nat} {top : Nat}
    (h : t.Joins a b left top right) : t.IsLowestCommon a b top where
  left := h.top_mem.1
  right := h.top_mem.2
  lowest _ ha hb := h.mem_ancestors_top ha hb

/-! ## §2: Climbing -/

theorem Deep.length_ancestors (h : t.Deep a depth) : (t.ancestors a).length = depth + 1 := by
  induction h with
  | root named exists_root noParent =>
    rw [ancestors_of_root (.root named exists_root noParent), List.length_singleton]
  | link isParent deep ih => rw [ancestors_of_link isParent deep, List.length_cons, ih]

/-- A climb of no more links than the node has above it reaches the depth aimed at. What it leaves
behind is deeper than that. -/
theorem Deep.exists_climb? {links : Nat} (h : t.Deep a (links + depth)) :
    ∃ behind reached, t.climb? links a = some (behind, reached) ∧ t.Deep reached depth ∧
      t.ancestors a = behind ++ t.ancestors reached ∧
      ∀ x ∈ behind, ∃ e, depth < e ∧ t.Deep x e := by
  induction links generalizing a with
  | zero =>
    rw [Nat.zero_add] at h
    exact ⟨[], a, rfl, h, rfl, by simp⟩
  | succ links ih =>
    rw [Nat.succ_add] at h
    -- the first link leads to the parent, and the others climb on from there
    obtain ⟨parent, isParent, deep⟩ := h.exists_parent
    obtain ⟨behind, reached, hclimb, hreached, hsplit, hbehind⟩ := ih deep
    refine ⟨a :: behind, reached, by simp [climb?, isParent, hclimb], hreached, ?_, ?_⟩
    · rw [ancestors_of_link isParent deep, hsplit, List.cons_append]
    · intro x hx
      rcases List.mem_cons.mp hx with rfl | hx
      · exact ⟨_, by omega, h⟩
      · exact hbehind x hx

/-- Two nodes of one depth: going up side by side ends where their chains come together. -/
theorem Deep.exists_meet? (ha : t.Deep a depth) (hb : t.Deep b depth) :
    ∃ left top right, t.meet? depth a b = some (left, top, right) ∧
      t.Joins a b left top right := by
  induction depth generalizing a b with
  | zero =>
    obtain rfl := ha.eq_of_zero hb
    exact ⟨[], a, [], by simp [meet?], rfl, rfl, ⟨0, ha⟩, by simp, by simp⟩
  | succ depth ih =>
    by_cases hab : a = b
    · subst hab
      exact ⟨[], a, [], by simp [meet?], rfl, rfl, ⟨_, ha⟩, by simp, by simp⟩
    · -- two different nodes of one depth below the root: both have parents, of one depth again
      obtain ⟨p, hp, hpdeep⟩ := ha.exists_parent
      obtain ⟨q, hq, hqdeep⟩ := hb.exists_parent
      obtain ⟨left, top, right, hmeet, hjoins⟩ := ih hpdeep hqdeep
      have hancA := ancestors_of_link hp hpdeep
      have hancB := ancestors_of_link hq hqdeep
      refine ⟨a :: left, top, b :: right, by simp [meet?, hab, hp, hq, hmeet], ?_, ?_,
        hjoins.deep, ?_, ?_⟩
      · rw [hancA, hjoins.left_eq, List.cons_append]
      · rw [hancB, hjoins.right_eq, List.cons_append]
      · intro x hx hxb
        rcases List.mem_cons.mp hx with rfl | hx
        · -- of this depth, the chain of `b` has `b` alone
          exact hab (hb.eq_of_mem_ancestors hxb ha)
        · rw [hancB] at hxb
          rcases List.mem_cons.mp hxb with rfl | hxb
          · have hxp : x ∈ t.ancestors p := hjoins.left_eq ▸ List.mem_append_left _ hx
            obtain ⟨e, he, hdeep⟩ := hpdeep.of_mem_ancestors hxp
            have := hb.depth_unique hdeep
            omega
          · exact hjoins.left_disjoint x hx hxb
      · intro htop
        rcases List.mem_cons.mp htop with rfl | htop
        · obtain ⟨e, he, hdeep⟩ := hqdeep.of_mem_ancestors hjoins.top_mem.2
          have := hb.depth_unique hdeep
          omega
        · exact hjoins.top_notMem htop

/-! ## §3: Both climbs together -/

/-- Chains that come together still do so when more is put below them, as long as what is put below
is deeper than both and is not on both sides. -/
private theorem Joins.extend {a' b' top : Nat} {left right up down : List Nat}
    (h : t.Joins a' b' left top right) (ha' : t.Deep a' depth) (hb' : t.Deep b' depth)
    (ha : t.ancestors a = up ++ t.ancestors a') (hb : t.ancestors b = down ++ t.ancestors b')
    (hup : ∀ x ∈ up, ∃ e, depth < e ∧ t.Deep x e)
    (hdown : ∀ x ∈ down, ∃ e, depth < e ∧ t.Deep x e) (hnil : up = [] ∨ down = []) :
    t.Joins a b (up ++ left) top (down ++ right) := by
  -- nothing put below is on a chain that starts at the common depth
  have hfar : ∀ {x c : Nat}, t.Deep c depth → x ∈ t.ancestors c →
      ¬ ∃ e, depth < e ∧ t.Deep x e := by
    rintro x c hc hx ⟨e, he, hdeep⟩
    obtain ⟨e', he', hdeep'⟩ := hc.of_mem_ancestors hx
    have := hdeep.depth_unique hdeep'
    omega
  refine ⟨by rw [ha, h.left_eq, List.append_assoc], by rw [hb, h.right_eq, List.append_assoc],
    h.deep, ?_, ?_⟩
  · intro x hx hxb
    rw [hb, List.mem_append] at hxb
    rcases List.mem_append.mp hx with hx | hx
    · rcases hxb with hxb | hxb
      · rcases hnil with rfl | rfl
        · simp at hx
        · simp at hxb
      · exact hfar hb' hxb (hup x hx)
    · have hxa' : x ∈ t.ancestors a' := h.left_eq ▸ List.mem_append_left _ hx
      rcases hxb with hxb | hxb
      · exact hfar ha' hxa' (hdown x hxb)
      · exact h.left_disjoint x hx hxb
  · intro htop
    rcases List.mem_append.mp htop with htop | htop
    · exact hfar hb' h.top_mem.2 (hdown top htop)
    · exact h.top_notMem htop

/-- The climb from two nodes of known depths, and the chains that it has followed. -/
theorem Deep.exists_pathBetween? (ha : t.Deep a depth) (hb : t.Deep b depth') :
    ∃ left top right,
      t.pathBetween? a depth b depth' = some ⟨a, left, top, right.reverse, b⟩ ∧
      t.Joins a b left top right := by
  have ha' : t.Deep a (depth - depth' + min depth depth') := by
    rwa [show depth - depth' + min depth depth' = depth by omega]
  have hb' : t.Deep b (depth' - depth + min depth depth') := by
    rwa [show depth' - depth + min depth depth' = depth' by omega]
  obtain ⟨up, a', hup, hadeep, hasplit, hupdeep⟩ := ha'.exists_climb?
  obtain ⟨down, b', hdown, hbdeep, hbsplit, hdowndeep⟩ := hb'.exists_climb?
  obtain ⟨left, top, right, hmeet, hjoins⟩ := hadeep.exists_meet? hbdeep
  -- only the deeper one of the two climbs before they meet
  have hnil : up = [] ∨ down = [] := by
    rcases Nat.le_total depth depth' with hle | hle
    · left
      rw [Nat.sub_eq_zero_of_le hle] at hup
      simp only [climb?, Option.some.injEq, Prod.mk.injEq] at hup
      exact hup.1.symm
    · right
      rw [Nat.sub_eq_zero_of_le hle] at hdown
      simp only [climb?, Option.some.injEq, Prod.mk.injEq] at hdown
      exact hdown.1.symm
  refine ⟨up ++ left, top, down ++ right, ?_,
    hjoins.extend hadeep hbdeep hasplit hbsplit hupdeep hdowndeep hnil⟩
  simp [pathBetween?, hup, hdown, hmeet]

theorem pathBetween?_eq_joining? (ha : t.Deep a depth) (hb : t.Deep b depth') :
    t.pathBetween? a depth b depth' = t.joining? a b := by
  obtain ⟨left, top, right, hpath, hjoins⟩ := ha.exists_pathBetween? hb
  rw [hpath, hjoins.joining?]

/-- Two nodes on chains to the root have a path, through their lowest common ancestor. It has at
least as many links as their depths differ by. -/
theorem exists_joining? (ha : t.Deep a depth) (hb : t.Deep b depth') :
    ∃ p, t.joining? a b = some p ∧ p.start = a ∧ p.finish = b ∧ t.IsLowestCommon a b p.top ∧
      depth - depth' + (depth' - depth) ≤ p.height := by
  obtain ⟨left, top, right, _, hjoins⟩ := ha.exists_pathBetween? hb
  refine ⟨_, hjoins.joining?, rfl, rfl, hjoins.isLowestCommon, ?_⟩
  -- a chain has as many nodes below the top as its depth is greater
  obtain ⟨e, htop⟩ := hjoins.deep
  have hleft := ha.length_ancestors
  have hright := hb.length_ancestors
  rw [hjoins.left_eq, List.length_append, htop.length_ancestors] at hleft
  rw [hjoins.right_eq, List.length_append, htop.length_ancestors] at hright
  simp only [LeafPath.height, List.length_reverse]
  omega

end PathCorpus.Arena
