import PathCorpus.Proofs.Ast.InPreOrder
import PathCorpus.Proofs.LeafPath.Renaming

/-!
# Trees that an arena unfolds to

An arena unfolds to the syntax tree that it shows at its root. What it is, up to its ids, is
determined by this tree: its nodes are those of the pre-order numbering under other ids, and the
new id of a node is the one that the walk through the arena meets at its place. So arenas that
unfold to one tree have the same contexts.

## Main statements

- `Arena.LaysOut.map_node?_ids`: the nodes of a forest that shows some trees, in order.
- `Arena.Unfolds.exists_renames`: the arena is the pre-order numbering under other ids.
- `Arena.Unfolds.contexts_eq`: the contexts of an arena are those of its tree.
-/

namespace PathCorpus

namespace Arena

variable {t : Arena} {root first : Nat} {below f : Forest} {as : List Ast}

/-- The arena is a tree, and from its root down it shows `a`. -/
structure Unfolds (t : Arena) (a : Ast) : Prop where
  accepted : t.check = .ok ()
  shows : ∃ root, t.root? = some root ∧ t.Shows root a

/-! ## §1: Forests that show trees -/

/-- A tree of a forest shows the first tree of a list, and the trees beside it the others. -/
theorem showsAll_cons_iff {id : Nat} {ids : List Nat} :
    t.ShowsAll (id :: ids) as ↔ ∃ n children as',
      as = .node n.label n.token? children :: as' ∧ t.node? id = some n ∧
        t.ShowsAll n.children children ∧ t.ShowsAll ids as' := by
  cases as with
  | nil => simp [ShowsAll]
  | cons a as =>
    cases a with
    | node label token? children =>
      constructor
      · rintro ⟨⟨n, hn, rfl, rfl, hshows⟩, hothers⟩
        exact ⟨n, children, as, rfl, hn, hshows, hothers⟩
      · rintro ⟨n, children, as, ⟨⟩, hn, hshows, hothers⟩
        exact ⟨⟨n, hn, rfl, rfl, hshows⟩, hothers⟩

theorem showsAll_nil_iff : t.ShowsAll [] as ↔ as = [] := by
  cases as <;> simp [ShowsAll]

/-- A forest that shows some trees has an id for each of their nodes. -/
theorem LaysOut.length_ids (h : t.LaysOut f) (hshows : t.ShowsAll f.tops as) :
    f.ids.length = Ast.sizeAll as := by
  induction f generalizing as with
  | nil =>
    obtain rfl := showsAll_nil_iff.mp hshows
    rfl
  | cons id below beside ihBelow ihBeside =>
    obtain ⟨⟨_, hchildren, _⟩, hbelow, hbeside⟩ := h
    obtain ⟨n, children, as, rfl, hn, hshows, hothers⟩ := showsAll_cons_iff.mp hshows
    rw [← childIds_eq_children hn, hchildren] at hshows
    rw [Forest.ids, List.length_cons, List.length_append, ihBelow hbelow hshows,
      ihBeside hbeside hothers, Ast.sizeAll, Ast.size]
    omega

/-! ## §2: Nodes in order -/

section Ordered

variable {φ : Nat → Nat}

/-- Ids given in order: first that of the top, then those below it, then those beside it. -/
private theorem ids_cons_eq {id : Nat} {beside : Forest} {label : String} {token? : Option String}
    {children : List Ast} (hlength : below.ids.length = Ast.sizeAll children)
    (h : (Forest.cons id below beside).ids =
      (List.range' first (Ast.sizeAll (.node label token? children :: as))).map φ) :
    id = φ first ∧ below.ids = (List.range' (first + 1) (Ast.sizeAll children)).map φ ∧
      beside.ids = (List.range' (first + (Ast.node label token? children).size)
        (Ast.sizeAll as)).map φ := by
  rw [Forest.ids, Ast.sizeAll, ← List.range'_append_1, Ast.size, List.range'_succ, List.cons_append,
    List.map_cons, List.map_append, List.cons.injEq] at h
  exact ⟨h.1, List.append_inj h.2 (by simp [hlength])⟩

/-- The tops have the ids that are given to the tops of the trees. -/
theorem LaysOut.tops_eq (h : t.LaysOut f) (hshows : t.ShowsAll f.tops as)
    (hids : f.ids = (List.range' first (Ast.sizeAll as)).map φ) :
    f.tops = (Ast.topIds first as).map φ := by
  induction f generalizing as first with
  | nil =>
    obtain rfl := showsAll_nil_iff.mp hshows
    rfl
  | cons id below beside _ ihBeside =>
    obtain ⟨⟨_, hchildren, _⟩, hbelow, hbeside⟩ := h
    obtain ⟨n, children, as, rfl, hn, hshows, hothers⟩ := showsAll_cons_iff.mp hshows
    rw [← childIds_eq_children hn, hchildren] at hshows
    obtain ⟨hid, -, hidsBeside⟩ := ids_cons_eq (hbelow.length_ids hshows) hids
    rw [Forest.tops, Ast.topIds, List.map_cons, ← hid, ihBeside hbeside hothers hidsBeside]

/-- A node whose links are given by new ids is the row with these links, renamed. -/
private theorem eq_renamed {id : Nat} {n : Node} (parent? : Option Nat) {tops : List Nat}
    (hn : t.node? id = some n) (hparent : t.parentId? id = parent?.map φ)
    (htops : t.childIds id = tops.map φ) :
    n = Node.renamed φ { n with parent? := parent?, children := tops } := by
  have hparent' : n.parent? = parent?.map φ := by simpa [Arena.parentId?, hn] using hparent
  rw [childIds_eq_children hn] at htops
  rw [Node.renamed, ← hparent', ← htops]

/-- The nodes of a forest that shows some trees are the rows of these trees with the ids that the
forest has at their places. -/
theorem LaysOut.map_node?_ids (h : t.LaysOut f) (hshows : t.ShowsAll f.tops as) {parent : Nat}
    (hparents : ∀ top ∈ f.tops, t.parentId? top = some (φ parent))
    (hids : f.ids = (List.range' first (Ast.sizeAll as)).map φ) :
    f.ids.map t.node? = (Ast.rowsAll first parent as).map fun n => some (n.renamed φ) := by
  induction f generalizing as first parent with
  | nil =>
    obtain rfl := showsAll_nil_iff.mp hshows
    rfl
  | cons id below beside ihBelow ihBeside =>
    obtain ⟨⟨_, hchildren, hparents'⟩, hbelow, hbeside⟩ := h
    obtain ⟨n, children, as, rfl, hn, hshows, hothers⟩ := showsAll_cons_iff.mp hshows
    rw [← childIds_eq_children hn, hchildren] at hshows
    obtain ⟨hid, hidsBelow, hidsBeside⟩ := ids_cons_eq (hbelow.length_ids hshows) hids
    rw [Forest.tops, List.forall_mem_cons] at hparents
    rw [hid] at hparents'
    have htops := hchildren.trans (hbelow.tops_eq hshows hidsBelow)
    have hrow := eq_renamed (some parent) hn hparents.1 htops
    rw [Forest.ids, List.map_cons, List.map_append, hn, ihBelow hbelow hshows hparents' hidsBelow,
      ihBeside hbeside hothers hparents.2 hidsBeside, Ast.rowsAll, Ast.rows, List.map_append,
      List.map_cons, List.cons_append, ← hrow]

end Ordered

/-! ## §3: Arenas that unfold to a tree -/

/-- The id of the node that the walk meets at a place. -/
def idAt (t : Arena) (place : Nat) : Nat := t.preOrder.getD place 0

theorem map_idAt (t : Arena) :
    t.preOrder = (List.range' 0 t.preOrder.length).map t.idAt := by
  refine List.ext_getElem (by simp) fun place hplace _ => ?_
  simp [idAt, hplace]

namespace Unfolds

variable {a : Ast}

/-- In the order of the walk, the nodes are the rows of the tree. -/
theorem map_node?_preOrder (h : t.Unfolds a) :
    t.preOrder.Nodup ∧ t.preOrder.length = a.size ∧ t.root? = some (t.idAt 0) ∧
      t.preOrder.map t.node? = (a.rows 0 none).map fun n => some (n.renamed t.idAt) := by
  obtain ⟨root, below, hrooted, -⟩ := check_eq_ok_iff.mp h.accepted
  obtain ⟨root', hnamed, hshows⟩ := h.shows
  obtain rfl := Option.some.inj (hrooted.named.symm.trans hnamed)
  -- the root is a forest of one tree, but nothing links to it, so its row is stated apart
  have hall : t.ShowsAll (Forest.cons root below .nil).tops [a] := ⟨hshows, trivial⟩
  have hlength := hrooted.laysOut.length_ids hall
  have hids := t.map_idAt
  rw [hrooted.preOrder, hlength] at hids
  obtain ⟨⟨_, hchildren, hparents⟩, hbelow, -⟩ := hrooted.laysOut
  obtain ⟨n, children, as, ⟨⟩, hn, hshows, -⟩ := showsAll_cons_iff.mp hall
  rw [← childIds_eq_children hn, hchildren] at hshows
  obtain ⟨hid, hidsBelow, -⟩ := ids_cons_eq (hbelow.length_ids hshows) hids
  have htops := hchildren.trans (hbelow.tops_eq hshows hidsBelow)
  have hrow := eq_renamed none hn hrooted.noParent htops
  refine ⟨hrooted.preOrder ▸ hrooted.nodup, ?_, hid ▸ hrooted.named, ?_⟩
  · rw [hrooted.preOrder, hlength, Ast.sizeAll, Ast.sizeAll, Nat.add_zero]
  · rw [hid] at hparents
    rw [hrooted.preOrder, Forest.ids, Forest.ids, List.append_nil, List.map_cons, hn,
      hbelow.map_node?_ids hshows hparents hidsBelow, Ast.rows, List.map_cons, ← hrow]

/-- The arena has the nodes of the pre-order numbering, each under the id that the walk meets. -/
theorem exists_renames (h : t.Unfolds a) : ∃ φ, Renames φ a.inPreOrder t := by
  obtain ⟨hnodup, hlength, hroot, hnodes⟩ := h.map_node?_preOrder
  have hidAt : ∀ {place : Nat}, place < a.inPreOrder.size →
      t.preOrder[place]? = some (t.idAt place) := by
    intro place hplace
    rw [size_inPreOrder, ← hlength] at hplace
    simp [idAt, hplace]
  refine ⟨t.idAt, ?_, fun place hplace => ?_, fun i hi j hj hij => ?_⟩
  · rw [hroot, root?_inPreOrder, Option.map_some]
  · have hnode := congrArg (·[place]?) hnodes
    simp only [List.getElem?_map, hidAt hplace, Option.map_some, ← toList_nodes_inPreOrder,
      Array.getElem?_toList] at hnode
    obtain ⟨n, hn⟩ := exists_node_of_lt hplace
    rw [node?] at hn
    rw [hn, Option.map_some, Option.some.injEq] at hnode
    rw [hnode, node?, hn, Option.map_some]
  · -- no id comes twice on the walk
    have hlt : i < t.preOrder.length := by rwa [hlength, ← size_inPreOrder]
    refine (List.getElem?_inj hlt hnodup).mp ?_
    rw [hidAt hi, hidAt hj, hij]

theorem contexts_eq (h : t.Unfolds a) (bounds : PathBounds) (limit : Limit) :
    t.contexts bounds limit = a.inPreOrder.contexts bounds limit := by
  obtain ⟨φ, hφ⟩ := h.exists_renames
  exact hφ.contexts a.isNumbering_inPreOrder.accepted h.accepted bounds limit

end Unfolds

end Arena

end PathCorpus
