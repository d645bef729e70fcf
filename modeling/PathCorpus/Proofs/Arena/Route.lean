import Mathlib.Data.List.Chain
import PathCorpus.Proofs.Arena.Tree

/-!
# Routes between nodes

A route goes from node to node along links, up or down. In a tree there is not much choice: of the
routes between two nodes the one through their lowest common ancestor is a part of every other. So
its length is the number of links between the nodes.

## Main statements

- `Arena.Deep.isChain_ancestors`: a chain of ancestors goes from child to parent.
- `Arena.Joins.isRoute`: where two chains come together, they make a route.
- `Arena.IsRoute.exists_joins`: every route has that one as a part.
- `Arena.Joins.linksBetween`: the number of links between two nodes.
-/

namespace PathCorpus.Arena

variable {t : Arena} {root a b c x y top child parent depth depth' : Nat} {left right : List Nat}

/-! ## §1: Chains of ancestors -/

/-- What is above an ancestor is the end of the chain. -/
theorem Deep.exists_ancestors_append (h : t.Deep a depth) (hx : x ∈ t.ancestors a) :
    ∃ front, t.ancestors a = front ++ t.ancestors x := by
  induction h with
  | root named exists_root noParent =>
    have hroot : t.Deep _ 0 := .root named exists_root noParent
    rw [ancestors_of_root hroot, List.mem_singleton] at hx
    exact ⟨[], by rw [hx, List.nil_append]⟩
  | link isParent deep ih =>
    rw [ancestors_of_link isParent deep, List.mem_cons] at hx
    rcases hx with rfl | hx
    · exact ⟨[], rfl⟩
    · obtain ⟨front, hfront⟩ := ih hx
      exact ⟨_ :: front, by rw [ancestors_of_link isParent deep, hfront, List.cons_append]⟩

theorem Deep.mem_ancestors_trans (h : t.Deep a depth) (hx : x ∈ t.ancestors a)
    (hy : y ∈ t.ancestors x) : y ∈ t.ancestors a := by
  obtain ⟨front, hfront⟩ := h.exists_ancestors_append hx
  rw [hfront]
  exact List.mem_append_right front hy

/-- Of two ancestors of one node the one nearer to the root is above the other. -/
theorem Deep.mem_ancestors_of_le {d e : Nat} (h : t.Deep a depth) (hx : x ∈ t.ancestors a)
    (hy : y ∈ t.ancestors a) (hxdeep : t.Deep x d) (hydeep : t.Deep y e) (hle : e ≤ d) :
    y ∈ t.ancestors x := by
  induction h with
  | root named exists_root noParent =>
    have hroot : t.Deep _ 0 := .root named exists_root noParent
    rw [ancestors_of_root hroot, List.mem_singleton] at hx hy
    rw [hx, hy]
    exact hroot.self_mem_ancestors
  | @link id parent depth isParent deep ih =>
    have hid : t.Deep id (depth + 1) := .link isParent deep
    rw [ancestors_of_link isParent deep, List.mem_cons] at hx
    rcases hx with rfl | hx
    · exact hy
    · rw [ancestors_of_link isParent deep, List.mem_cons] at hy
      rcases hy with rfl | hy
      · -- the node itself is further from the root than all that is above it
        obtain ⟨d', hd', hdeep⟩ := deep.of_mem_ancestors hx
        have hd := hxdeep.depth_unique hdeep
        have he := hydeep.depth_unique hid
        omega
      · exact ih hx hy

/-- Whatever a chain starts with starts with the node. -/
theorem Deep.head?_of_ancestors_eq {front above : List Nat} (h : t.Deep a depth)
    (heq : t.ancestors a = front ++ above) (hne : front ≠ []) : front.head? = some a := by
  obtain ⟨rest, hrest⟩ := h.exists_ancestors_cons
  cases front with
  | nil => exact absurd rfl hne
  | cons x front =>
    rw [hrest, List.cons_append, List.cons.injEq] at heq
    rw [List.head?_cons, heq.1]

/-- Each node of a chain is followed by its parent. -/
theorem Deep.isChain_ancestors (h : t.Deep a depth) :
    (t.ancestors a).IsChain fun child parent => t.parentId? child = some parent := by
  induction h with
  | root named exists_root noParent =>
    rw [ancestors_of_root (.root named exists_root noParent)]
    exact .singleton _
  | link isParent deep ih =>
    obtain ⟨above, habove⟩ := deep.exists_ancestors_cons
    rw [habove] at ih
    rw [ancestors_of_link isParent deep, habove]
    exact .cons_cons isParent ih

/-- Whatever is above a node, the node itself apart, is the parent of something. -/
theorem Deep.exists_child_of_mem_ancestors (h : t.Deep a depth) (hx : x ∈ t.ancestors a)
    (hne : x ≠ a) : ∃ child, t.parentId? child = some x := by
  induction h with
  | root named exists_root noParent =>
    rw [ancestors_of_root (.root named exists_root noParent), List.mem_singleton] at hx
    exact absurd hx hne
  | @link id parent depth isParent deep ih =>
    rw [ancestors_of_link isParent deep, List.mem_cons] at hx
    by_cases hparent : x = parent
    · exact ⟨id, by rw [hparent, isParent]⟩
    · exact ih (hx.resolve_left hne) hparent

/-! ## §2: Links of a tree -/

/-- The link between two nodes, both halves of it. -/
def IsChild (t : Arena) (child parent : Nat) : Prop :=
  t.parentId? child = some parent ∧ child ∈ t.childIds parent

/-- The arena has no half of a link without the other, and parents lead from every node to the
root. -/
structure WellLinked (t : Arena) : Prop where
  deep : ∀ id < t.size, ∃ depth, t.Deep id depth
  isChild_of_parentId? : ∀ {child parent}, t.parentId? child = some parent → t.IsChild child parent
  isChild_of_mem : ∀ {child parent}, child ∈ t.childIds parent → t.IsChild child parent

theorem LaysOut.isChild_of_mem {f : Forest} (h : t.LaysOut f) (hparent : parent ∈ f.ids)
    (hchild : child ∈ t.childIds parent) : t.IsChild child parent := by
  induction f with
  | nil => simp [Forest.ids] at hparent
  | cons id below beside ihBelow ihBeside =>
    obtain ⟨⟨_, hchildren, hparents⟩, hbelow, hbeside⟩ := h
    simp only [Forest.ids, List.mem_cons, List.mem_append] at hparent
    rcases hparent with rfl | hparent | hparent
    · exact ⟨hparents child (hchildren ▸ hchild), hchild⟩
    · exact ihBelow hbelow hparent
    · exact ihBeside hbeside hparent

/-- An id that is not at the top is a child. -/
theorem LaysOut.exists_isChild {f : Forest} (h : t.LaysOut f) (hid : child ∈ f.ids) :
    child ∈ f.tops ∨ ∃ parent, t.IsChild child parent := by
  induction f with
  | nil => simp [Forest.ids] at hid
  | cons id below beside ihBelow ihBeside =>
    obtain ⟨⟨_, hchildren, hparents⟩, hbelow, hbeside⟩ := h
    simp only [Forest.ids, List.mem_cons, List.mem_append] at hid
    rcases hid with rfl | hid | hid
    · exact .inl List.mem_cons_self
    · rcases ihBelow hbelow hid with htop | hchild
      · exact .inr ⟨id, hparents child htop, hchildren ▸ htop⟩
      · exact .inr hchild
    · rcases ihBeside hbeside hid with htop | hchild
      · exact .inl (List.mem_cons_of_mem _ htop)
      · exact .inr hchild

/-- The links of a tree are whole. -/
theorem Rooted.wellLinked {below : Forest} (h : t.Rooted root below)
    (hall : ∀ id < t.size, id ∈ (Forest.cons root below .nil).ids) : t.WellLinked where
  deep id hid := by
    obtain ⟨depth, hstop⟩ := Forest.exists_stop_of_mem_ids 0 (hall id hid)
    exact ⟨depth, h.deep_of_mem_stops hstop⟩
  isChild_of_parentId? {child parent} hparent := by
    rcases h.laysOut.exists_isChild (hall child (lt_size_of_parentId? hparent)) with htop | hchild
    · obtain rfl : child = root := by simpa [Forest.tops] using htop
      rw [h.noParent] at hparent
      cases hparent
    · obtain ⟨parent', hchild⟩ := hchild
      obtain rfl := Option.some.inj (hparent.symm.trans hchild.1)
      exact hchild
  isChild_of_mem hchild := h.laysOut.isChild_of_mem (hall _ (lt_size_of_mem_childIds hchild)) hchild

/-! ## §3: Routes -/

/-- There is a link between the two nodes. -/
def Adjoins (t : Arena) (a b : Nat) : Prop := t.IsChild a b ∨ t.IsChild b a

/-- The nodes met on the way from `a` to `b` along links, both ends included. -/
structure IsRoute (t : Arena) (a b : Nat) (route : List Nat) : Prop where
  first : route.head? = some a
  last : route.getLast? = some b
  links : route.IsChain t.Adjoins

/-- No route between the two nodes has fewer links than `n`, and one has as many. -/
def LinksBetween (t : Arena) (a b n : Nat) : Prop :=
  (∃ route, t.IsRoute a b route ∧ route.length = n + 1) ∧
    ∀ route, t.IsRoute a b route → n + 1 ≤ route.length

namespace Joins

/-- Two chains come together in one place. -/
theorem unique {left' right' : List Nat} {top' : Nat} (h : t.Joins a b left top right)
    (h' : t.Joins a b left' top' right') : left = left' ∧ top = top' ∧ right = right' := by
  obtain rfl := Option.some.inj (h.lowestCommon?.symm.trans h'.lowestCommon?)
  exact ⟨h.takeWhile_left.symm.trans h'.takeWhile_left, rfl,
    h.takeWhile_right.symm.trans h'.takeWhile_right⟩

/-- The chain of the first node as far as the place where it comes together with the other one. -/
theorem exists_left_append (h : t.Joins a b left top right) :
    ∃ above, t.ancestors a = (left ++ [top]) ++ above := by
  obtain ⟨_, hdeep⟩ := h.deep
  obtain ⟨above, habove⟩ := hdeep.exists_ancestors_cons
  exact ⟨above, by rw [h.left_eq, habove, List.append_assoc, List.singleton_append]⟩

theorem exists_right_append (h : t.Joins a b left top right) :
    ∃ above, t.ancestors b = (right ++ [top]) ++ above := by
  obtain ⟨_, hdeep⟩ := h.deep
  obtain ⟨above, habove⟩ := hdeep.exists_ancestors_cons
  exact ⟨above, by rw [h.right_eq, habove, List.append_assoc, List.singleton_append]⟩

theorem isChain_left (h : t.Joins a b left top right) (hlinked : t.WellLinked)
    (ha : t.Deep a depth) : (left ++ [top]).IsChain t.IsChild := by
  obtain ⟨above, habove⟩ := h.exists_left_append
  have hchain := ha.isChain_ancestors
  rw [habove] at hchain
  exact hchain.left_of_append.imp fun _ _ => hlinked.isChild_of_parentId?

theorem isChain_right (h : t.Joins a b left top right) (hlinked : t.WellLinked)
    (hb : t.Deep b depth) :
    (top :: right.reverse).IsChain fun parent child => t.IsChild child parent := by
  obtain ⟨above, habove⟩ := h.exists_right_append
  have hchain := hb.isChain_ancestors
  rw [habove] at hchain
  have hup : (right ++ [top]).IsChain t.IsChild :=
    hchain.left_of_append.imp fun _ _ => hlinked.isChild_of_parentId?
  -- going down is going up the other way round
  have hdown := List.isChain_reverse.mpr hup
  rwa [List.reverse_append, List.reverse_singleton, List.singleton_append] at hdown

/-- Up one chain and down the other. -/
theorem isRoute (h : t.Joins a b left top right) (hlinked : t.WellLinked) (ha : t.Deep a depth)
    (hb : t.Deep b depth') : t.IsRoute a b (left ++ top :: right.reverse) where
  first := by
    obtain ⟨above, habove⟩ := h.exists_left_append
    rw [List.append_cons, List.head?_append, ha.head?_of_ancestors_eq habove (by simp),
      Option.some_or]
  last := by
    obtain ⟨above, habove⟩ := h.exists_right_append
    have hdown : top :: right.reverse = (right ++ [top]).reverse := by
      rw [List.reverse_append, List.reverse_singleton, List.singleton_append]
    rw [hdown, List.getLast?_append, List.getLast?_reverse,
      hb.head?_of_ancestors_eq habove (by simp), Option.some_or]
  links := by
    rw [List.isChain_split]
    exact ⟨(h.isChain_left hlinked ha).imp fun _ _ => .inl,
      (h.isChain_right hlinked hb).imp fun _ _ => .inr⟩

/-- No node comes twice on the way up one chain and down the other. -/
theorem nodup (h : t.Joins a b left top right) (ha : t.Deep a depth) (hb : t.Deep b depth') :
    (left ++ top :: right.reverse).Nodup := by
  obtain ⟨above, habove⟩ := h.exists_left_append
  obtain ⟨above', habove'⟩ := h.exists_right_append
  have hleft := ha.nodup_ancestors
  have hright := hb.nodup_ancestors
  rw [habove] at hleft
  rw [habove'] at hright
  have hup : (left ++ [top]).Nodup := hleft.of_append_left
  have hdown : right.Nodup := hright.of_append_left.of_append_left
  rw [List.append_cons, List.nodup_append']
  refine ⟨hup, List.nodup_reverse.mpr hdown, fun x hx hxright => ?_⟩
  rw [List.mem_reverse] at hxright
  rcases List.mem_append.mp hx with hx | hx
  · apply h.left_disjoint x hx
    rw [h.right_eq]
    exact List.mem_append_left _ hxright
  · rw [List.mem_singleton.mp hx] at hxright
    exact h.top_notMem hxright

theorem mem_ancestors (h : t.Joins a b left top right) (hx : x ∈ left ++ top :: right.reverse) :
    x ∈ t.ancestors a ∨ x ∈ t.ancestors b := by
  simp only [List.mem_append, List.mem_cons, List.mem_reverse] at hx
  rcases hx with hx | rfl | hx
  · exact .inl (h.left_eq ▸ List.mem_append_left _ hx)
  · exact .inl h.top_mem.1
  · exact .inr (h.right_eq ▸ List.mem_append_left _ hx)

/-- The chain of a node that is above the other is a part of the other's. -/
theorem of_append (ha : t.Deep a depth) (hb : t.Deep b depth')
    (h : t.ancestors b = right ++ t.ancestors a) : t.Joins a b [] a right := by
  refine ⟨rfl, h, ⟨_, ha⟩, by simp, fun hmem => ?_⟩
  have hnodup := hb.nodup_ancestors
  rw [h] at hnodup
  exact List.disjoint_of_nodup_append hnodup hmem ha.self_mem_ancestors

/-- A route that starts at `a` and goes down first: to a node whose parent is `a`. -/
theorem exists_of_child (h : t.Joins y b left top right) (isParent : t.parentId? y = some a)
    (ha : t.Deep a depth) (hb : t.Deep b depth') :
    ∃ left' top' right', t.Joins a b left' top' right' ∧
      (left' ++ top' :: right'.reverse).Sublist (a :: (left ++ top :: right.reverse)) := by
  have hleft := h.left_eq
  rw [ancestors_of_link isParent ha] at hleft
  cases left with
  | nil =>
    -- `y` is above `b`, and so is `a`
    have hright := h.right_eq
    rw [← List.nil_append (t.ancestors top), ← hleft, List.append_cons] at hright
    obtain ⟨_, htop⟩ := h.deep
    obtain ⟨above, habove⟩ := htop.exists_ancestors_cons
    rw [List.nil_append, habove, List.cons.injEq] at hleft
    refine ⟨[], a, right ++ [y], of_append ha hb hright, ?_⟩
    rw [List.reverse_append, ← hleft.1]
    exact List.Sublist.refl _
  | cons x left =>
    -- the route comes through `a` again
    rw [List.cons_append, List.cons.injEq] at hleft
    have hjoins : t.Joins a b left top right :=
      ⟨hleft.2, h.right_eq, h.deep, fun z hz => h.left_disjoint z (List.mem_cons_of_mem _ hz),
        h.top_notMem⟩
    exact ⟨left, top, right, hjoins,
      (List.sublist_cons_self _ _).trans (List.sublist_cons_self _ _)⟩

/-- A route that starts at `a` and goes up first: to the parent of `a`. -/
theorem exists_of_parent (h : t.Joins y b left top right) (isParent : t.parentId? a = some y)
    (hy : t.Deep y depth) (hb : t.Deep b depth') :
    ∃ left' top' right', t.Joins a b left' top' right' ∧
      (left' ++ top' :: right'.reverse).Sublist (a :: (left ++ top :: right.reverse)) := by
  have ha : t.Deep a (depth + 1) := .link isParent hy
  have hancestors := ancestors_of_link isParent hy
  by_cases hmem : a ∈ t.ancestors b
  · -- the route comes down to `a` again
    obtain ⟨below, hbelow⟩ := hb.exists_ancestors_append hmem
    have hright := hbelow
    rw [hancestors, List.append_cons] at hright
    obtain ⟨rfl, rfl, rfl⟩ := h.unique (of_append hy hb hright)
    refine ⟨[], a, below, of_append ha hb hbelow, ?_⟩
    rw [List.reverse_append]
    exact ((List.sublist_cons_self _ _).trans (List.sublist_cons_self _ _))
  · have hjoins : t.Joins a b (a :: left) top right := by
      refine ⟨by rw [hancestors, h.left_eq, List.cons_append], h.right_eq, h.deep, fun z hz => ?_,
        h.top_notMem⟩
      rcases List.mem_cons.mp hz with rfl | hz
      · exact hmem
      · exact h.left_disjoint z hz
    exact ⟨a :: left, top, right, hjoins, List.Sublist.refl _⟩

end Joins

/-- Of any route between two nodes the one along their chains is a part. -/
theorem IsRoute.exists_joins {route : List Nat} (h : t.IsRoute a b route) (hlinked : t.WellLinked)
    (hb : t.Deep b depth) :
    ∃ left top right, t.Joins a b left top right ∧
      (left ++ top :: right.reverse).Sublist route := by
  obtain ⟨hfirst, hlast, hlinks⟩ := h
  induction route generalizing a with
  | nil => cases hfirst
  | cons x route ih =>
    obtain rfl : x = a := Option.some.inj hfirst
    cases route with
    | nil =>
      obtain rfl : x = b := Option.some.inj hlast
      exact ⟨[], x, [], Joins.of_append hb hb rfl, List.Sublist.refl _⟩
    | cons y route =>
      -- the rest of the route starts one link further on
      obtain ⟨hadjoins, hlinks⟩ := List.isChain_cons_cons.mp hlinks
      obtain ⟨left, top, right, hjoins, hsub⟩ := ih rfl (by simpa using hlast) hlinks
      rcases hadjoins with hup | hdown
      · obtain ⟨_, hx⟩ := hlinked.deep x (lt_size_of_parentId? hup.1)
        cases hx with
        | root _ _ noParent => exact absurd (noParent.symm.trans hup.1) nofun
        | link isParent deep =>
          obtain rfl := Option.some.inj (isParent.symm.trans hup.1)
          obtain ⟨left', top', right', hjoins', hsub'⟩ := hjoins.exists_of_parent hup.1 deep hb
          exact ⟨left', top', right', hjoins', hsub'.trans (hsub.cons_cons x)⟩
      · obtain ⟨_, hx⟩ := hlinked.deep x (lt_size_of_mem_childIds hdown.2)
        obtain ⟨left', top', right', hjoins', hsub'⟩ := hjoins.exists_of_child hdown.1 hx hb
        exact ⟨left', top', right', hjoins', hsub'.trans (hsub.cons_cons x)⟩

/-- The number of links between two nodes is that of the links along their chains. -/
theorem Joins.linksBetween (h : t.Joins a b left top right) (hlinked : t.WellLinked)
    (ha : t.Deep a depth) (hb : t.Deep b depth') :
    t.LinksBetween a b (left.length + right.length) := by
  have hlength : (left ++ top :: right.reverse).length = left.length + right.length + 1 := by
    rw [List.length_append, List.length_cons, List.length_reverse, Nat.add_assoc]
  refine ⟨⟨_, h.isRoute hlinked ha hb, hlength⟩, fun route hroute => ?_⟩
  obtain ⟨left', top', right', hjoins, hsub⟩ := hroute.exists_joins hlinked hb
  obtain ⟨rfl, rfl, rfl⟩ := h.unique hjoins
  rw [← hlength]
  exact hsub.length_le

end PathCorpus.Arena
