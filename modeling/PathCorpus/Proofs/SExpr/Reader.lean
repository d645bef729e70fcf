import PathCorpus.Proofs.SExpr.Grammar

/-!
# The reader keeps to the grammar

Reading from left to right, taking every gap and every label whole and trying a token before a
child, finds what the grammar derives and nothing else. Soundness holds for any bound on the
levels. Completeness needs a bound that the tree does not exceed, and since any two trees have such
a bound in common, it also shows that a text has at most one tree.

## Main statements

- `isText_of_readText`: what is read is derivable.
- `IsText.readText_eq`: what is derivable is read.
- `IsText.unique`: a text stands for at most one tree.
-/

namespace PathCorpus.SExpr

variable {s rest : List Char}

/-! ## §1: Headings -/

theorem heading_of_readHead? {head : Head s} (h : readHead? s = some head) :
    Heading s head.label head.token? head.rest := by
  simp only [readHead?] at h
  split at h
  case isTrue => cases h
  case isFalse hlabel =>
    have hl := isLabel_takeWhile hlabel
    split at h
    case h_1 text rest' ht =>
      obtain rfl := Option.some.inj h
      have htoken := token?_eq_some_iff.mp ht
      exact .intro (gap_skip s) hl (gap_skip _) (.present htoken (gap_skip rest'))
    case h_2 =>
      obtain rfl := Option.some.inj h
      exact .intro (gap_skip s) hl (gap_skip _) (.absent _)

/-- After the heading comes a child or the closing parenthesis, so that no gap is cut short and no
token is passed over. -/
theorem Heading.exists_readHead? {label : String} {token? : Option String}
    (h : Heading s label token? rest) (hrest : ∀ c ∈ rest.head?, c = '(' ∨ c = ')') :
    ∃ head, readHead? s = some head ∧ head.label = label ∧ head.token? = token? ∧
      head.rest = rest := by
  have hsolid : Solid rest := solid_of_parenthesis hrest
  obtain ⟨hgap, hlabel, hgap', htoken⟩ := h
  -- the gap before the label ends where the reader stops skipping
  obtain ⟨htake, hdrop⟩ := hlabel.takeWhile_eq
  rw [← hgap.skip_eq_of_solid hlabel.solid] at htake hdrop
  rw [← hdrop] at hgap'
  simp only [readHead?, htake]
  split
  case isTrue hnil => exact absurd hnil hlabel.nonempty
  case isFalse =>
    -- both ways the reader looks for a token at the same place as the grammar
    cases htoken with
    | absent =>
      have hskip := hgap'.skip_eq_of_solid hsolid
      split
      case h_1 meant rest' ht =>
        -- a token starts with a quotation mark, which is not what comes after the heading
        obtain ⟨written, _, hs⟩ := token?_eq_some_iff.mp ht
        rw [hskip] at hs
        simp [hs] at hrest
      case h_2 => exact ⟨_, rfl, rfl, rfl, hskip⟩
    | present htoken hgap₄ =>
      have hquote : Solid _ := htoken.solid
      have hskip := hgap'.skip_eq_of_solid hquote
      have ht := token?_eq_some_iff.mpr htoken
      rw [← hskip] at ht
      split
      case h_1 meant rest' ht' =>
        obtain ⟨rfl, rfl⟩ : meant = _ ∧ rest' = _ := by simpa [ht] using ht'.symm
        exact ⟨_, rfl, rfl, rfl, hgap₄.skip_eq_of_solid hsolid⟩
      case h_2 hnone => simp [ht] at hnone

/-! ## §2: What is read is derivable -/

/-- A run is derivable if every node in it is. -/
theorem nodes_of_readNodes {readNode : (s : List Char) → Option (Attempt s)}
    (hread : ∀ {s tree rest shorter misses},
      readNode s = some (.found tree rest shorter misses) → IsNode s tree rest)
    {run : Run s} (h : readNodes readNode s = some run) : Nodes s run.trees run.rest := by
  -- each node leaves less text, which is what the run recurses on
  induction hlen : s.length using Nat.strongRecOn generalizing s with
  | _ n ih =>
    subst hlen
    rw [readNodes] at h
    split at h
    case h_1 => cases h
    case h_2 =>
      obtain rfl := Option.some.inj h
      exact .nil s
    case h_3 tree rest shorter misses hnode =>
      simp only at h
      split at h
      case h_1 => cases h
      case h_2 run' hrun =>
        obtain rfl := Option.some.inj h
        have hlt := Nat.lt_of_le_of_lt (length_skip_le rest) shorter
        exact .cons (hread hnode) (gap_skip rest) (ih _ hlt hrun rfl)

theorem isNode_of_readNode {levels : Nat} {tree : Ast} {shorter : rest.length < s.length}
    {misses : List Miss} (h : readNode levels s = some (.found tree rest shorter misses)) :
    IsNode s tree rest := by
  induction levels generalizing s rest tree misses with
  | zero =>
    unfold readNode at h
    split at h <;> simp at h
  | succ levels ih =>
    unfold readNode at h
    split at h
    case h_1 s =>
      simp only at h
      split at h
      case h_1 => simp at h
      case h_2 head hhead =>
        split at h
        case h_1 => simp at h
        case h_2 run hrun =>
          -- the children open one level less, so the induction hypothesis reads them
          have hheading := heading_of_readHead? hhead
          have hnodes := nodes_of_readNodes ih hrun
          split at h
          case h_1 rest' hrest =>
            rw [hrest] at hnodes
            simp only [Option.some.injEq, Attempt.found.injEq] at h
            obtain ⟨rfl, rfl, _⟩ := h
            exact .intro hheading hnodes
          case h_2 => simp at h
    case h_2 => simp at h

theorem isText_of_readText {levels : Nat} {text : List Char} {tree : Ast}
    (h : readText levels text = some (.ok tree)) : IsText text tree := by
  unfold readText at h
  split at h
  case h_1 => cases h
  case h_2 => simp at h
  case h_3 tree' rest shorter misses hnode =>
    split at h
    case isTrue hend =>
      obtain rfl : tree' = tree := by simpa using h
      exact ⟨skip text, rest, gap_skip text, isNode_of_readNode hnode, hend ▸ gap_skip rest⟩
    case isFalse => simp at h

/-! ## §3: What is derivable is read -/

theorem readNode_of_closed (levels : Nat) (h : Closed s) :
    readNode levels s = some (.refused [⟨.node, s⟩]) := by
  unfold readNode
  split
  case h_1 s' => exact absurd (h '(' rfl) (by decide)
  case h_2 => rfl

mutual

/-- The bound on the levels is used up by one at each node. -/
theorem IsNode.exists_readNode {levels : Nat} {s rest : List Char} {tree : Ast}
    (h : IsNode s tree rest) (hlevels : tree.levels ≤ levels) :
    ∃ shorter misses, readNode levels s = some (.found tree rest shorter misses) := by
  match h with
  | @IsNode.intro s s' rest label token? trees heading children =>
    rw [Ast.levels] at hlevels
    obtain ⟨levels, rfl⟩ : ∃ l, levels = l + 1 := ⟨levels - 1, by omega⟩
    -- heading and children are read as the grammar has them, up to the closing parenthesis
    have hclosed : Closed (')' :: rest) := by simp [Closed]
    obtain ⟨head, hhead, rfl, rfl, rfl⟩ :=
      heading.exists_readHead? (children.parenthesis hclosed)
    have hbelow : Ast.levelsAll trees ≤ levels := by omega
    obtain ⟨run, hrun, rfl, hrest⟩ := children.exists_readNodes hbelow hclosed
    unfold readNode
    simp only [hhead, hrun]
    split
    case h_1 rest' hrest' =>
      obtain rfl : rest' = rest := by simpa [hrest'] using hrest
      have hshorter : rest'.length < ('(' :: s).length := by
        have hhead := head.shorter
        have hrun := run.shorter
        simp only [hrest', List.length_cons] at hrun ⊢
        omega
      exact ⟨hshorter, _, rfl⟩
    case h_2 hother => exact absurd hrest (hother rest)

/-- Gaps between nodes are taken whole since what follows them is solid. -/
theorem Nodes.exists_readNodes {levels : Nat} {s rest : List Char} {trees : List Ast}
    (h : Nodes s trees rest) (hlevels : Ast.levelsAll trees ≤ levels) (hrest : Closed rest) :
    ∃ run, readNodes (readNode levels) s = some run ∧ run.trees = trees ∧ run.rest = rest := by
  match h with
  | .nil s =>
    rw [readNodes, readNode_of_closed levels hrest]
    exact ⟨_, rfl, rfl, rfl⟩
  | @Nodes.cons s s₁ s₂ rest tree trees first hgap others =>
    obtain ⟨hfirst, hothers⟩ := Nat.max_le.mp hlevels
    obtain ⟨shorter, misses, hfirst⟩ := first.exists_readNode hfirst
    obtain ⟨run, hrun, rfl, rfl⟩ := others.exists_readNodes hothers hrest
    have hskip := hgap.skip_eq_of_solid (others.solid hrest)
    rw [readNodes]
    simp only [hfirst]
    subst hskip
    simp only [hrun]
    exact ⟨_, rfl, rfl, rfl⟩

end

theorem IsText.readText_eq {levels : Nat} {text : List Char} {tree : Ast} (h : IsText text tree)
    (hlevels : tree.levels ≤ levels) : readText levels text = some (.ok tree) := by
  obtain ⟨s, rest, hbefore, hnode, hafter⟩ := h
  -- the gaps around the node are taken whole, the one after it up to the end
  have hs := hbefore.skip_eq_of_solid hnode.solid
  have hrest : skip rest = [] := hafter.skip_eq_of_solid (by simp [Solid])
  obtain ⟨shorter, misses, hread⟩ := hnode.exists_readNode hlevels
  subst hs
  simp only [readText, hread, hrest, if_true]

theorem IsText.unique {text : List Char} {a b : Ast} (ha : IsText text a) (hb : IsText text b) :
    a = b := by
  -- with levels enough for both trees the reader finds either
  have hreadA := ha.readText_eq (Nat.le_max_left a.levels b.levels)
  have hreadB := hb.readText_eq (Nat.le_max_right a.levels b.levels)
  simpa [hreadA] using hreadB

end PathCorpus.SExpr
