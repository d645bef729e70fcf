import PathCorpus.Proofs.Arena.Growing

/-!
# Which steps keep a tree

Of all single steps on a tree only one makes another tree of it: to add a child below a node
that is there. Every other step that changes anything writes one half of a link, or a link
besides the one that a node has, or a root where there is none, and the check finds the trace
that this leaves. So an arena that is made by adding a first node and then children, one by
one, is a tree at every time.

## Main statements

- `Arena.Spans.link_eq_self`, `Arena.Spans.pushChild_eq_self` and their like, one for each step:
  if the arena is still a tree, the step has changed nothing.
- `Edit.eq_self_or_addsChild`: the same for any step.
- `Edit.check_apply_iff`: the steps that keep a tree, and what the walks find after them.
-/

namespace PathCorpus

namespace Arena

variable {t : Arena} {root root' id child parent : Nat} {below below' : Forest} {label : String}
  {token? : Option String}

/-! ## §1: Steps that break a tree -/

/-- A node is added without a parent. -/
theorem Spans.not_spans_addNode (h : t.Spans root below) :
    ¬ (t.addNode label token?).Spans root' below' := by
  intro h'
  have hroot : root' = root := by
    have hnamed := h'.named
    rw [addNode, h.named] at hnamed
    exact (Option.some.inj hnamed).symm
  have hnew : t.size < (t.addNode label token?).size := by simp
  obtain ⟨parent, hparent⟩ := h'.exists_parentId? hnew (hroot ▸ Nat.ne_of_gt h.root_lt_size)
  rw [parentId?_addNode] at hparent
  exact Nat.lt_irrefl _ (lt_size_of_parentId? hparent)

/-- A node is added under an id that was not in use, be it its own. -/
theorem not_spans_addChild (hparent : t.size ≤ parent) :
    ¬ (t.addChild parent label token?).Spans root' below' := by
  intro h'
  have hnew : (t.addChild parent label token?).parentId? t.size = some parent := by
    rw [parentId?_addChild, if_pos rfl]
  have hlt := lt_size_of_mem_childIds (h'.mem_childIds_iff.mpr hnew)
  rw [size_addChild] at hlt
  obtain rfl : parent = t.size := by omega
  exact h'.parentId?_ne_self _ hnew

/-- What names the node as its parent is listed already, and nothing else may be. -/
theorem Spans.pushChild_eq_self (h : t.Spans root below)
    (h' : (t.pushChild id child).Spans root' below') : t.pushChild id child = t := by
  by_cases hlt : id < t.size
  · have hchildren : (t.pushChild id child).childIds id = t.childIds id ++ [child] := by
      rw [childIds_pushChild, if_pos ⟨rfl, hlt⟩]
    have hlisted : child ∈ (t.pushChild id child).childIds id := by
      rw [hchildren]
      exact List.mem_concat_self
    have hparent := h'.mem_childIds_iff.mp hlisted
    rw [parentId?_pushChild] at hparent
    have hnodup := h'.nodup_childIds id
    rw [hchildren] at hnodup
    have hdisjoint := List.disjoint_of_nodup_append hnodup
    exact absurd List.mem_cons_self (hdisjoint (h.mem_childIds_iff.mpr hparent))
  · exact modify_of_size_le _ (Nat.le_of_not_lt hlt)

theorem putParent_of_eq {parent? : Option Nat} (h : id < t.size → t.parentId? id = parent?) :
    t.putParent id parent? = t := by
  apply modify_eq_self
  intro n hn
  have hlt : id < t.size := Nat.lt_of_not_le fun hle => by simp [node?_eq_none.mpr hle] at hn
  have hsame := h hlt
  rw [parentId?, hn, Option.bind_some] at hsame
  rw [← hsame]

/-- A node that has a parent is still listed there. -/
theorem Spans.putParent_eq_self {parent? : Option Nat} (h : t.Spans root below)
    (h' : (t.putParent id parent?).Spans root' below') : t.putParent id parent? = t := by
  apply putParent_of_eq
  intro hlt
  have hparent : (t.putParent id parent?).parentId? id = parent? := by
    rw [parentId?_putParent, if_pos ⟨rfl, hlt⟩]
  have hroot : root' = root := Option.some.inj (h'.named.symm.trans h.named)
  by_cases hid : id = root
  · have hnone := h'.noParent
    rw [hroot, ← hid, hparent] at hnone
    rw [hid, h.noParent, hnone]
  · obtain ⟨parent, hold⟩ := h.exists_parentId? hlt hid
    have hlisted := h.mem_childIds_iff.mpr hold
    rw [← childIds_putParent t id parent?, h'.mem_childIds_iff, hparent] at hlisted
    rw [hold, hlisted]

/-- The child has the parent already, or it keeps the link that it has, too. -/
theorem Spans.link_eq_self (h : t.Spans root below)
    (h' : (t.link child parent).Spans root' below') : t.link child parent = t := by
  have hsame : t.putParent child (some parent) = t := by
    apply putParent_of_eq
    intro hlt
    have hparent : (t.link child parent).parentId? child = some parent := by
      rw [link, parentId?_pushChild, parentId?_putParent, if_pos ⟨rfl, hlt⟩]
    have hroot : root' = root := Option.some.inj (h'.named.symm.trans h.named)
    have hne : child ≠ root := hroot ▸ h'.ne_root_of_parentId? hparent
    -- the list that it stands in has become no shorter
    obtain ⟨old, hold⟩ := h.exists_parentId? hlt hne
    have hlisted : child ∈ (t.link child parent).childIds old := by
      have := h.mem_childIds_iff.mpr hold
      rw [link, childIds_pushChild, childIds_putParent]
      split
      · exact List.mem_append_left _ this
      · exact this
    rw [hold, ← h'.mem_childIds_iff.mp hlisted, hparent]
  rw [link, hsame] at h' ⊢
  exact h.pushChild_eq_self h'

/-- Another root has a parent, or is missing. -/
theorem Spans.setRoot_eq_self (h : t.Spans root below) (h' : (t.setRoot id).Spans root' below') :
    t.setRoot id = t := by
  obtain rfl : id = root' := Option.some.inj h'.named
  obtain rfl : id = root := h.eq_root_of_parentId?_eq_none h'.root_lt_size h'.noParent
  rw [setRoot, ← h.named]

theorem not_spans_clearRoot : ¬ t.clearRoot.Spans root' below' := fun h' => nomatch h'.named

end Arena

/-! ## §2: All steps -/

namespace Edit

open Arena (Spans)

variable {t : Arena} {root root' : Nat} {below below' : Forest} {e : Edit}

/-- The step adds a child below a node that is there. -/
def AddsChild (e : Edit) (t : Arena) : Prop :=
  ∃ parent label token?, parent < t.size ∧ e = .addChild parent label token?

/-- A step that leaves a tree has changed nothing or added a child. -/
theorem eq_self_or_addsChild (h : t.Spans root below) (h' : (e.apply t).Spans root' below') :
    e.apply t = t ∨ e.AddsChild t := by
  cases e with
  | addNode label token? => exact absurd h' h.not_spans_addNode
  | addChild parent label token? =>
    by_cases hlt : parent < t.size
    · exact .inr ⟨parent, label, token?, hlt, rfl⟩
    · exact absurd h' (Arena.not_spans_addChild (Nat.le_of_not_lt hlt))
  | link child parent => exact .inl (h.link_eq_self h')
  | setRoot id => exact .inl (h.setRoot_eq_self h')
  | clearRoot => exact absurd h' Arena.not_spans_clearRoot
  | pushChild id child => exact .inl (h.pushChild_eq_self h')
  | putParent id parent? => exact .inl (h.putParent_eq_self h')

theorem check_apply_of_addsChild (h : t.check = .ok ()) (he : e.AddsChild t) :
    (e.apply t).check = .ok () := by
  obtain ⟨parent, label, token?, hparent, rfl⟩ := he
  obtain ⟨root, below, hspans⟩ := Arena.check_eq_ok_iff_spans.mp h
  obtain ⟨below', hspans', -⟩ := hspans.exists_addChild hparent label token?
  exact Arena.check_eq_ok_iff_spans.mpr ⟨root, below', hspans'⟩

/-- A single node is a tree. -/
theorem check_addNode_empty (label : String) (token? : Option String) :
    (Arena.empty.addNode label token?).check = .ok () := by
  have hbears : (Arena.empty.addNode label token?).Bears 0 .nil := ⟨Nat.zero_lt_one, rfl, nofun⟩
  refine Arena.check_eq_ok_iff_spans.mpr
    ⟨0, .nil, ⟨rfl, rfl, ⟨hbears, trivial, trivial⟩, ?_⟩, ?_⟩
  · simp [Forest.ids]
  · intro id hid
    obtain rfl : id = 0 := Nat.lt_one_iff.mp hid
    exact List.mem_cons_self

/-- **Growing a tree**: a first node, and then one child after another. -/
theorem check_build {label : String} {token? : Option String} {steps : List Edit}
    (h : ∀ before step after, steps = before ++ step :: after →
      step.AddsChild (build (.addNode label token? :: before))) :
    (build (.addNode label token? :: steps)).check = .ok () := by
  induction steps using List.reverseRecOn with
  | nil => exact check_addNode_empty label token?
  | append_singleton steps step ih =>
    have hbuild : build (.addNode label token? :: (steps ++ [step])) =
        step.apply (build (.addNode label token? :: steps)) := by
      rw [build, build, ← List.cons_append, List.foldl_append, List.foldl_cons, List.foldl_nil]
    rw [hbuild]
    apply check_apply_of_addsChild
    · refine ih fun before step' after heq => h before step' (after ++ [step]) ?_
      rw [heq, List.append_assoc, List.cons_append]
    · exact h steps step [] rfl

/-- **Steps that keep a tree**: a step on a tree leaves a tree if it has changed nothing, or has
added a child below a node that was there, and not otherwise. The new child stands right after
the subtree of its parent in pre-order, one link deeper than the parent, and all other depths
are what they were. So whatever is made by adding a first node and then children below nodes
that are there is a tree. -/
theorem check_apply_iff :
    (∀ (t : Arena) (e : Edit), t.check = .ok () →
      ((e.apply t).check = .ok () ↔ e.apply t = t ∨ e.AddsChild t) ∧
      ∀ parent label token?, e = .addChild parent label token? → parent < t.size →
        t.GrowsUnder (e.apply t) parent) ∧
    ∀ label token? (steps : List Edit),
      (∀ before step after, steps = before ++ step :: after →
        step.AddsChild (build (.addNode label token? :: before))) →
      (build (.addNode label token? :: steps)).check = .ok () := by
  refine ⟨fun t e h => ⟨⟨fun h' => ?_, fun hstep => ?_⟩, ?_⟩, fun label token? steps => check_build⟩
  · obtain ⟨root, below, hspans⟩ := Arena.check_eq_ok_iff_spans.mp h
    obtain ⟨root', below', hspans'⟩ := Arena.check_eq_ok_iff_spans.mp h'
    exact eq_self_or_addsChild hspans hspans'
  · rcases hstep with hsame | hadds
    · rwa [hsame]
    · exact check_apply_of_addsChild h hadds
  · rintro parent label token? rfl hparent
    obtain ⟨root, below, hspans⟩ := Arena.check_eq_ok_iff_spans.mp h
    exact hspans.growsUnder hparent label token?

/-- A child is added inside the order, and a link is made to a node that is linked already. -/
theorem check_apply_iff_inside :
    let t := build [.addNode "R" none, .addChild 0 "A" none, .addChild 1 "B" (some "b"),
      .addChild 0 "C" (some "c")]
    let u := (addChild 1 "D" (some "d")).apply t
    (t.check = .ok () ∧ t.preOrder = [0, 1, 2, 3]) ∧
      (u.check = .ok () ∧ t.GrowsUnder u 1 ∧ u.preOrder = [0, 1, 2, 4, 3]) ∧
      ((link 3 1).apply t).check ≠ .ok () := by
  intro t u
  have ht : t.check = .ok () := by decide +kernel
  refine ⟨⟨ht, by decide +kernel⟩, ⟨?_, ?_, by decide +kernel⟩, ?_⟩
  · exact (check_apply_iff.1 t _ ht).1.mpr (.inr ⟨1, "D", some "d", by decide, rfl⟩)
  · exact (check_apply_iff.1 t _ ht).2 1 "D" (some "d") rfl (by decide)
  · intro hlink
    rcases (check_apply_iff.1 t _ ht).1.mp hlink with hsame | ⟨parent, label, token?, -, heq⟩
    · have hchanged : ((link 3 1).apply t).parentId? 3 ≠ t.parentId? 3 := by decide +kernel
      exact hchanged (by rw [hsame])
    · cases heq

end Edit

end PathCorpus
