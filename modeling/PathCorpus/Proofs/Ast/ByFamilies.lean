import PathCorpus.Proofs.Ast.InPreOrder

/-!
# Syntax trees numbered by families

When the children of a node are appended, they have no children of their own yet. So the
numbering by families fills in rows that are there already. It is first described as what
becomes of the rows: those of the tops that wait for their families get their children, and the
rows below them come at the end. As for the pre-order, whatever arena holds these rows lays out
a forest and shows the tree. The ids of the forest are those from 0 on in some order.

## Main statements

- `Arena.toList_nodes_growTree`: growing a tree completes its top and appends the rows below.
- `Arena.Holds.laysOut_families`: what these rows amount to.
- `Ast.ids_families_perm`: the ids of the trees of a family.
- `Ast.shows_byFamilies`, `Ast.accepted_byFamilies`: the arena as a whole.
-/

namespace PathCorpus

/-! ## §1: Rows -/

namespace Ast

/-- The top of a tree as it is appended. -/
def topRow (parent : Nat) (a : Ast) : Node :=
  { label := a.label, token? := a.token?, parent? := some parent }

/-- The tops of trees with their children, whose families are numbered from `next` on. -/
def familyRows (parent next : Nat) : List Ast → List Node
  | [] => []
  | a :: as =>
    { a.topRow parent with children := List.range' next a.children.length } ::
      familyRows parent (next + sizeAll a.children) as

mutual

/-- The nodes below the top `id` of a tree, numbered from `next` on. -/
def grownRows (id next : Nat) : Ast → List Node
  | .node _ _ children =>
    familyRows id (next + children.length) children ++
      grownRowsAll next (next + children.length) children

/-- The nodes below the tops of trees, the tops numbered from `id` and the others from `next` on. -/
def grownRowsAll (id next : Nat) : List Ast → List Node
  | [] => []
  | a :: as => grownRows id next a ++ grownRowsAll (id + 1) (next + sizeAll a.children) as

end

mutual

/-- What is below the top of a tree, numbered from `next` on. -/
def underFamilies (next : Nat) : Ast → Forest
  | .node _ _ children => families next (next + children.length) children

/-- Trees with their tops numbered from `id` on and what is below them from `next` on. -/
def families (id next : Nat) : List Ast → Forest
  | [] => .nil
  | a :: as => .cons id (underFamilies next a) (families (id + 1) (next + sizeAll a.children) as)

end

@[simp] theorem length_familyRows (parent next : Nat) (as : List Ast) :
    (familyRows parent next as).length = as.length := by
  induction as generalizing next with
  | nil => rfl
  | cons a as ih => simp [familyRows, ih]

mutual

@[simp] theorem length_grownRows (id next : Nat) :
    (a : Ast) → (grownRows id next a).length = sizeAll a.children
  | .node _ _ cs => by
    have h := length_grownRowsAll next (next + cs.length) cs
    rw [grownRows, List.length_append, length_familyRows, Nat.add_comm, h, children]

theorem length_grownRowsAll (id next : Nat) :
    (as : List Ast) → (grownRowsAll id next as).length + as.length = sizeAll as
  | [] => rfl
  | a :: as => by
    have h := length_grownRowsAll (id + 1) (next + sizeAll a.children) as
    rw [grownRowsAll, List.length_append, length_grownRows id next a, List.length_cons, sizeAll,
      a.size_eq]
    omega

end

@[simp] theorem tops_families (id next : Nat) (as : List Ast) :
    (families id next as).tops = List.range' id as.length := by
  induction as generalizing id next with
  | nil => rfl
  | cons a as ih => simp [families, Forest.tops, ih, List.range'_succ]

@[simp] theorem tops_underFamilies (next : Nat) (a : Ast) :
    (a.underFamilies next).tops = List.range' next a.children.length := by
  cases a with
  | node label token? cs => rw [underFamilies, tops_families, children]

end Ast

/-! ## §2: Growing a tree appends its rows -/

private theorem modify_append_cons {α : Type} (l : List α) (a : α) (m : List α) (f : α → α) :
    (l ++ a :: m).modify l.length f = l ++ f a :: m := by
  induction l with
  | nil => rfl
  | cons b l ih => simp [ih]

namespace Arena

variable {t : Arena}

theorem size_eq_length (t : Arena) : t.size = t.nodes.toList.length := rfl

theorem toList_nodes_addFamily {l m : List Node} {n : Node} (h : t.nodes.toList = l ++ n :: m)
    (as : List Ast) :
    (t.addFamily l.length as).nodes.toList =
      l ++ n.withMore (List.range' t.size as.length) :: (m ++ as.map (Ast.topRow l.length)) := by
  induction as generalizing t n m with
  | nil => simpa [addFamily] using h
  | cons a as ih =>
    have hlt : l.length < t.size := by
      rw [size_eq_length, h]
      simp
    have hfirst := toList_nodes_addChild hlt a.label a.token?
    rw [h, modify_append_cons, List.append_assoc, List.cons_append] at hfirst
    have hothers := ih hfirst
    rw [size_addChild] at hothers
    simpa [addFamily, List.range'_succ, Ast.topRow] using hothers

mutual

/-- The top has no children yet and gets them, and all that is below it comes at the end. -/
theorem toList_nodes_growTree {t : Arena} {l m : List Node} {n : Node} {id : Nat}
    (hid : l.length = id) (h : t.nodes.toList = l ++ n :: m) :
    (a : Ast) → (t.growTree id a).nodes.toList =
      l ++ n.withMore (List.range' t.size a.children.length) :: (m ++ a.grownRows id t.size)
  | .node _ _ children => by
    subst hid
    -- the children come after all nodes there are
    have hlength : (l ++ n.withMore (List.range' t.size children.length) :: m).length = t.size := by
      rw [size_eq_length, h]
      simp
    have hfamily : (t.addFamily l.length children).nodes.toList =
        (l ++ n.withMore (List.range' t.size children.length) :: m) ++
          children.map (Ast.topRow l.length) ++ [] := by
      simpa using toList_nodes_addFamily h children
    have hsize : (t.addFamily l.length children).size = t.size + children.length := by
      rw [size_eq_length, hfamily, List.append_nil, List.length_append, hlength, List.length_map]
    rw [growTree, toList_nodes_growTrees hlength hfamily, hsize, Ast.grownRows, Ast.children]
    simp only [List.append_nil, List.append_assoc, List.cons_append]

/-- The tops stand in a row, and each gets its family in its turn. -/
theorem toList_nodes_growTrees {t : Arena} {l m : List Node} {parent id : Nat}
    (hid : l.length = id) :
    {as : List Ast} → t.nodes.toList = l ++ as.map (Ast.topRow parent) ++ m →
      (t.growTrees id as).nodes.toList =
        l ++ Ast.familyRows parent t.size as ++ m ++ Ast.grownRowsAll id t.size as
  | [], h => by simpa [growTrees, Ast.familyRows, Ast.grownRowsAll] using h
  | a :: as, h => by
    rw [List.map_cons, List.append_assoc, List.cons_append] at h
    have hfirst := toList_nodes_growTree hid h a
    have hsize : (t.growTree id a).size = t.size + Ast.sizeAll a.children := by
      rw [size_eq_length t, size_eq_length, hfirst, h]
      simp
      omega
    -- the other tops come after a row that is complete by now
    have hid' : (l ++ [{ a.topRow parent with
        children := List.range' t.size a.children.length }]).length = id + 1 := by
      simp [hid]
    have hrows : (t.growTree id a).nodes.toList =
        (l ++ [{ a.topRow parent with children := List.range' t.size a.children.length }]) ++
          as.map (Ast.topRow parent) ++ (m ++ a.grownRows id t.size) := by
      simpa [Node.withMore, Ast.topRow] using hfirst
    rw [growTrees, toList_nodes_growTrees hid' hrows, hsize, Ast.familyRows, Ast.grownRowsAll]
    simp only [List.append_assoc, List.cons_append, List.nil_append]

end

mutual

theorem root?_growTree {t : Arena} {root : Nat} (h : t.root? = some root) (id : Nat) :
    (a : Ast) → (t.growTree id a).root? = some root
  | .node _ _ children => by
    rw [growTree]
    refine root?_growTrees ?_ _ children
    -- no child that is appended becomes the root
    rw [addFamily]
    refine List.foldlRecOn (motive := fun t : Arena => t.root? = some root) _ _ h ?_
    intro t h a _
    simp [addChild, addNode, link, putParent, pushChild, modify, h]

theorem root?_growTrees {t : Arena} {root : Nat} (h : t.root? = some root) (id : Nat) :
    (as : List Ast) → (t.growTrees id as).root? = some root
  | [] => h
  | a :: as => by
    rw [growTrees]
    exact root?_growTrees (root?_growTree h id a) (id + 1) as

end

/-! ## §3: What the rows amount to -/

theorem Holds.parentId?_of_mem_familyRows {id parent next : Nat} {as : List Ast}
    (h : t.Holds id (Ast.familyRows parent next as)) :
    ∀ child ∈ List.range' id as.length, t.parentId? child = some parent := by
  induction as generalizing id next with
  | nil => simp
  | cons a as ih =>
    rw [Ast.familyRows] at h
    rw [List.length_cons, List.range'_succ, List.forall_mem_cons]
    refine ⟨?_, ih h.2⟩
    rw [Arena.parentId?, h.1]
    rfl

mutual

/-- The rows below a node lay out its family, which hangs under the node. -/
theorem Holds.laysOut_underFamilies {t : Arena} {id next : Nat} :
    {a : Ast} → t.Holds next (a.grownRows id next) →
      t.LaysOut (a.underFamilies next) ∧
        t.ShowsAll (List.range' next a.children.length) a.children ∧
        ∀ child ∈ List.range' next a.children.length, t.parentId? child = some id
  | .node label token? children, h => by
    rw [Ast.grownRows, holds_append, Ast.length_familyRows] at h
    obtain ⟨hlaysOut, hshows⟩ := Holds.laysOut_families h.1 h.2
    exact ⟨hlaysOut, hshows, h.1.parentId?_of_mem_familyRows⟩

theorem Holds.laysOut_families {t : Arena} {parent id next : Nat} :
    {as : List Ast} → t.Holds id (Ast.familyRows parent next as) →
      t.Holds next (Ast.grownRowsAll id next as) →
      t.LaysOut (Ast.families id next as) ∧ t.ShowsAll (List.range' id as.length) as
  | [], _, _ => ⟨trivial, trivial⟩
  | .node label token? children :: as, htops, hbelow => by
    rw [Ast.familyRows] at htops
    rw [Ast.grownRowsAll, holds_append, Ast.length_grownRows] at hbelow
    obtain ⟨hlaysOut, hshows, hparents⟩ := hbelow.1.laysOut_underFamilies
    obtain ⟨hlaysOut', hshows'⟩ := Holds.laysOut_families htops.2 hbelow.2
    have hlt : id < t.size := by
      rw [← Nat.not_le, ← node?_eq_none, htops.1]
      simp
    refine ⟨⟨⟨hlt, ?_, ?_⟩, hlaysOut, hlaysOut'⟩, ⟨_, htops.1, rfl, rfl, hshows⟩, hshows'⟩
    · rw [childIds_eq_children htops.1, Ast.tops_underFamilies]
    · rwa [Ast.tops_underFamilies]

end

end Arena

/-! ## §4: The numbering by families -/

namespace Ast

mutual

/-- Below a node come first its children and then what is below them. -/
theorem ids_underFamilies_perm (next : Nat) :
    (a : Ast) → (a.underFamilies next).ids.Perm (List.range' next (sizeAll a.children))
  | .node _ _ cs => by
    have h := ids_families_perm next (next + cs.length) cs
    have hlength : cs.length + (grownRowsAll next (next + cs.length) cs).length = sizeAll cs := by
      rw [Nat.add_comm, length_grownRowsAll]
    rw [underFamilies, children, ← hlength, ← List.range'_append_1]
    exact h

theorem ids_families_perm (id next : Nat) :
    (as : List Ast) → (families id next as).ids.Perm
      (List.range' id as.length ++ List.range' next (grownRowsAll id next as).length)
  | [] => .nil
  | a :: as => by
    have hbelow := ids_underFamilies_perm next a
    have hbeside := ids_families_perm (id + 1) (next + sizeAll a.children) as
    rw [families, Forest.ids, grownRowsAll, List.length_append, length_grownRows, List.length_cons,
      List.range'_succ, ← List.range'_append_1, List.cons_append]
    refine .cons id ((hbelow.append hbeside).trans ?_)
    -- what is below the first tree changes places with the other tops
    rw [← List.append_assoc, ← List.append_assoc]
    exact List.perm_append_comm.append_right _

end

theorem toList_nodes_byFamilies (a : Ast) :
    a.byFamilies.nodes.toList =
      { label := a.label, token? := a.token?, children := List.range' 1 a.children.length } ::
        a.grownRows 0 1 := by
  have hsingle : (Arena.empty.addNode a.label a.token?).nodes.toList =
      [] ++ { label := a.label, token? := a.token? } :: [] := rfl
  have hlength : ([] : List Node).length = 0 := rfl
  have h := Arena.toList_nodes_growTree hlength hsingle a
  simpa [byFamilies, Node.withMore] using h

theorem ids_byFamilies_perm (a : Ast) :
    (Forest.cons 0 (a.underFamilies 1) .nil).ids.Perm (List.range a.byFamilies.size) := by
  rw [size_byFamilies, a.size_eq, List.range_eq_range', List.range'_succ, Forest.ids, Forest.ids,
    List.append_nil]
  exact (a.ids_underFamilies_perm 1).cons 0

theorem holds_byFamilies (a : Ast) :
    a.byFamilies.node? 0 =
        some { label := a.label, token? := a.token?, children := List.range' 1 a.children.length } ∧
      a.byFamilies.Holds 1 (a.grownRows 0 1) := by
  exact Arena.holds_of_drop_eq (List.drop_zero.trans a.toList_nodes_byFamilies)

theorem shows_byFamilies (a : Ast) : a.byFamilies.Shows 0 a := by
  obtain ⟨htop, hbelow⟩ := a.holds_byFamilies
  obtain ⟨-, hshows, -⟩ := hbelow.laysOut_underFamilies
  cases a with
  | node label token? children => exact ⟨_, htop, rfl, rfl, hshows⟩

theorem rooted_byFamilies (a : Ast) : a.byFamilies.Rooted 0 (a.underFamilies 1) := by
  obtain ⟨htop, hbelow⟩ := a.holds_byFamilies
  obtain ⟨hlaysOut, -, hparents⟩ := hbelow.laysOut_underFamilies
  have hlt : 0 < a.byFamilies.size := by
    rw [← Nat.not_le, ← Arena.node?_eq_none, htop]
    simp
  refine ⟨?_, ?_, ⟨⟨hlt, ?_, ?_⟩, hlaysOut, trivial⟩, ?_⟩
  · exact Arena.root?_growTree rfl 0 a
  · rw [Arena.parentId?, htop]
    rfl
  · rw [Arena.childIds_eq_children htop, tops_underFamilies]
  · rwa [tops_underFamilies]
  · exact a.ids_byFamilies_perm.nodup_iff.mpr List.nodup_range

theorem accepted_byFamilies (a : Ast) : a.byFamilies.check = .ok () := by
  rw [Arena.check_eq_ok_iff]
  refine ⟨0, a.underFamilies 1, a.rooted_byFamilies, fun i hi => ?_⟩
  exact a.ids_byFamilies_perm.mem_iff.mpr (List.mem_range.mpr hi)

end Ast

end PathCorpus
