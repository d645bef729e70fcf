import PathCorpus.Proofs.SExpr.Language
import PathCorpus.SExpr.Unbounded

/-!
# The nesting of a text bounds its reading

The measure of a text is taken by a pass that knows nothing of the grammar, and its reading
recurses by the grammar. On a text that is refused the two part at some place, but not before
it. Up to every place that the reading comes to, what it has read is derivable, and over what is
derivable the pass has the depth that the grammar has. So with each parenthesis that the reading
opens, the pass has counted one more as well, and what it sees behind the place where the
reading stops can only make its measure greater.

Everything here is by one induction: over the attempts of a reading that nothing cuts off.

## Main statements

- `readNode_eq`, `readText_eq`: a reading is cut off by the nodes that are open at once, and by
  nothing else.
- `opened_le_deepestFrom`: what the pass makes of an attempt, whatever its outcome.
- `active_le_opened`: the nodes that are tried at once.
- `addTreeWithin_eq`: the calls that it takes to lay out a tree.
- `recursion_within_nesting`: the recursion of the parser.
-/

namespace PathCorpus

namespace SExpr

variable {s rest : List Char} {levels : Nat}

/-! ## §1: One node and one run -/

/-- Once its children are read, a node is found if a closing parenthesis comes next, and else it is
refused. -/
theorem Head.close_cases (head : Head s) (run : Run head.rest) :
    (∃ rest shorter, run.rest = ')' :: rest ∧ head.close run =
        .found (.node head.label head.token? run.trees) rest shorter (head.misses ++ run.misses)) ∨
      (∀ rest, run.rest ≠ ')' :: rest) ∧ head.close run = .refused (head.misses ++ run.misses) := by
  unfold Head.close
  split
  next rest hrest => exact .inl ⟨rest, head.length_lt hrest, hrest, rfl⟩
  next hother => exact .inr ⟨hother, rfl⟩

theorem tryNode_of_not_open (h : ∀ s', s ≠ '(' :: s') :
    tryNode s = { attempt := .refused [⟨.node, s⟩], opened := 0, active := 1 } := by
  rw [tryNode]
  exact h

theorem tryNode_of_no_label (h : readHead? s = none) :
    tryNode ('(' :: s) =
      { attempt := .refused [⟨.label, skip s⟩], opened := 1, active := 1 } := by
  rw [tryNode, h]

theorem tryNode_of_head {head : Head s} (h : readHead? s = some head) :
    tryNode ('(' :: s) =
      { attempt := head.close (tryNodes head.rest).run
        opened := (tryNodes head.rest).opened + 1
        active := (tryNodes head.rest).active + 1 } := by
  rw [tryNode, h]

theorem tryNodes_of_refused {misses : List Miss} (h : (tryNode s).attempt = .refused misses) :
    tryNodes s =
      { run := ⟨[], s, Nat.le_refl _, misses⟩
        opened := (tryNode s).opened
        active := (tryNode s).active } := by
  rw [tryNodes]
  split
  next misses' h' =>
    obtain rfl : misses = misses' := by simpa [h] using h'
    rfl
  next h' => simp [h] at h'

theorem tryNodes_of_found {tree : Ast} {shorter : rest.length < s.length} {misses : List Miss}
    (h : (tryNode s).attempt = .found tree rest shorter misses) :
    ∃ hle, tryNodes s =
      { run := ⟨tree :: (tryNodes (skip rest)).run.trees, (tryNodes (skip rest)).run.rest, hle,
          misses ++ (tryNodes (skip rest)).run.misses⟩
        opened := max (tryNode s).opened (tryNodes (skip rest)).opened
        active := max (tryNode s).active (tryNodes (skip rest)).active } := by
  have hlt := Nat.lt_of_le_of_lt (length_skip_le rest) shorter
  refine ⟨Nat.le_trans (tryNodes (skip rest)).run.shorter (Nat.le_of_lt hlt), ?_⟩
  rw [tryNodes.eq_def s]
  simp only [h]

/-! ## §2: Readings that are cut off -/

theorem readNode_cons (levels : Nat) (s : List Char) :
    readNode (levels + 1) ('(' :: s) =
      match readHead? s with
      | none => some (.refused [⟨.label, skip s⟩])
      | some head => (readNodes (readNode levels) head.rest).map head.close := by
  rw [readNode]
  cases readHead? s with
  | none => rfl
  | some head =>
    cases hrun : readNodes (readNode levels) head.rest with
    | none => simp only [hrun, Option.map_none]
    | some run =>
      simp only [hrun, Option.map_some]
      split
      next rest hrest =>
        rcases head.close_cases run with ⟨rest', shorter, hrest', hclose⟩ | ⟨hother, _⟩
        · obtain rfl : rest = rest' := by simpa [hrest] using hrest'
          rw [hclose]
        · exact absurd hrest (hother rest)
      next hother =>
        rcases head.close_cases run with ⟨rest', shorter, hrest', _⟩ | ⟨_, hclose⟩
        · exact (hother rest' hrest').elim
        · rw [hclose]

theorem readNode_zero (s : List Char) : readNode 0 ('(' :: s) = none := by rw [readNode]

/-- **What cuts a reading off** is only that more nodes than the bound are open at once. Within the
bound it is the reading without one. -/
theorem readNode_eq_and_readNodes_eq :
    (∀ s levels, readNode levels s =
      if (tryNode s).opened ≤ levels then some (tryNode s).attempt else none) ∧
    ∀ s levels, readNodes (readNode levels) s =
      if (tryNodes s).opened ≤ levels then some (tryNodes s).run else none := by
  refine tryNode.mutual_induct _ _ ?noLabel ?head ?notOpen ?last ?more
  case noLabel =>
    intro s hhead levels
    rw [tryNode_of_no_label hhead]
    cases levels with
    | zero => simp [readNode_zero]
    | succ levels => simp [readNode_cons, hhead]
  case head =>
    intro s head hhead _ ih levels
    rw [tryNode_of_head hhead]
    cases levels with
    | zero => simp [readNode_zero]
    | succ levels =>
      by_cases hopened : (tryNodes head.rest).opened ≤ levels
      · simp [readNode_cons, hhead, ih, hopened]
      · simp [readNode_cons, hhead, ih, hopened]
  case notOpen =>
    intro s hopen levels
    rw [tryNode_of_not_open hopen, readNode]
    · simp
    · exact hopen
  case last =>
    intro s first misses hfirst ih levels
    rw [tryNodes_of_refused hfirst, readNodes, ih, hfirst]
    by_cases hopened : (tryNode s).opened ≤ levels
    · simp [hopened]
    · simp [hopened]
  case more =>
    intro s first tree rest shorter misses hfirst _ others _ ih ihOthers levels
    obtain ⟨hle, heq⟩ := tryNodes_of_found hfirst
    rw [heq, readNodes, ih, hfirst]
    simp only [Nat.max_le]
    by_cases hopened : (tryNode s).opened ≤ levels
    · simp only [hopened, if_true, true_and, ihOthers]
      by_cases hothers : (tryNodes (skip rest)).opened ≤ levels
      · simp [hothers]
      · simp [hothers]
    · simp [hopened]

theorem readNode_eq (levels : Nat) (s : List Char) : readNode levels s =
    if (tryNode s).opened ≤ levels then some (tryNode s).attempt else none :=
  readNode_eq_and_readNodes_eq.1 s levels

theorem readText_eq (levels : Nat) (text : List Char) : readText levels text =
    if mostOpened text ≤ levels then some (readWhole text) else none := by
  rw [readText, readNode_eq, readWhole, mostOpened]
  by_cases hopened : (tryNode (skip text)).opened ≤ levels
  · simp only [hopened, if_true]
    cases (tryNode (skip text)).attempt with
    | refused misses => rfl
    | found tree rest shorter misses =>
      simp only
      split <;> rfl
  · simp only [hopened, if_false]

/-! ## §3: Reading in step with the measure -/

/-- What is found without a bound is derivable. -/
theorem isNode_of_tryNode {tree : Ast} {shorter : rest.length < s.length} {misses : List Miss}
    (h : (tryNode s).attempt = .found tree rest shorter misses) : IsNode s tree rest := by
  have hread := readNode_eq (tryNode s).opened s
  rw [if_pos (Nat.le_refl _), h] at hread
  exact isNode_of_readNode hread

namespace Nesting

theorem deepest_le_step (n : Nesting) (c : Char) : n.deepest ≤ (n.step c).deepest := by
  -- only an opening parenthesis changes it
  by_cases hopen : n.region = .outside ∧ c = '('
  · obtain ⟨hn, rfl⟩ := hopen
    rw [step_open hn]
    exact Nat.le_max_left _ _
  · have hsame : (n.step c).deepest = n.deepest := by
      unfold step
      grind
    exact Nat.le_of_eq hsame.symm

/-- The measure never goes down. -/
theorem deepest_le_deepestFrom (n : Nesting) (s : List Char) : n.deepest ≤ n.deepestFrom s := by
  induction s generalizing n with
  | nil => exact Nat.le_refl _
  | cons c s ih => exact Nat.le_trans (n.deepest_le_step c) (ih (n.step c))

end Nesting

/-- The nodes that an attempt opens come on top of the parentheses that are open where it starts. -/
theorem opened_le_deepestFrom :
    (∀ s (n : Nesting), n.region = .outside → n.depth ≤ n.deepest →
      n.depth + (tryNode s).opened ≤ n.deepestFrom s) ∧
    ∀ s (n : Nesting), n.region = .outside → n.depth ≤ n.deepest →
      n.depth + (tryNodes s).opened ≤ n.deepestFrom s := by
  refine tryNode.mutual_induct _ _ ?noLabel ?head ?notOpen ?last ?more
  case noLabel =>
    intro s hhead n hn hle
    have hopened := n.opened.deepest_le_deepestFrom s
    rw [tryNode_of_no_label hhead, Nesting.deepestFrom_cons, Nesting.step_open hn]
    exact Nat.le_trans (Nat.le_max_right _ _) hopened
  case head =>
    intro s head hhead _ ih n hn hle
    have hheading := (heading_of_readHead? hhead).deepestFrom (n := n.opened) hn
    have hinner := ih n.opened hn (Nat.le_max_right _ _)
    -- the children start one parenthesis deeper
    have hdeeper : n.opened.depth = n.depth + 1 := rfl
    rw [tryNode_of_head hhead, Nesting.deepestFrom_cons, Nesting.step_open hn, hheading]
    show n.depth + ((tryNodes head.rest).opened + 1) ≤ _
    omega
  case notOpen =>
    intro s hopen n hn hle
    rw [tryNode_of_not_open hopen]
    exact Nat.le_trans hle (n.deepest_le_deepestFrom s)
  case last =>
    intro s first misses hfirst ih n hn hle
    rw [tryNodes_of_refused hfirst]
    exact ih n hn hle
  case more =>
    intro s first tree rest shorter misses hfirst _ others _ ih ihOthers n hn hle
    obtain ⟨_, heq⟩ := tryNodes_of_found hfirst
    have hfirst' := ih n hn hle
    -- the first node is derivable, so the pass leaves it at the depth that it came to it with
    have hdip : (n.dip tree.levels).region = .outside := hn
    have hdepth : (n.dip tree.levels).depth = n.depth := rfl
    have hnode := (isNode_of_tryNode hfirst).deepestFrom hn
    have hothers := ihOthers (n.dip tree.levels) hdip (Nesting.depth_le_dip _)
    rw [← (gap_skip rest).deepestFrom hdip, ← hnode, hdepth] at hothers
    rw [heq]
    show n.depth + max (tryNode s).opened (tryNodes (skip rest)).opened ≤ _
    omega

/-- A node that is tried and not open is the last one. -/
theorem active_le_opened :
    (∀ s, (tryNode s).active ≤ (tryNode s).opened + 1) ∧
      ∀ s, (tryNodes s).active ≤ (tryNodes s).opened + 1 := by
  refine tryNode.mutual_induct _ _ ?noLabel ?head ?notOpen ?last ?more
  case noLabel =>
    intro s hhead
    rw [tryNode_of_no_label hhead]
    exact Nat.le_succ 1
  case head =>
    intro s head hhead _ ih
    rw [tryNode_of_head hhead]
    exact Nat.succ_le_succ ih
  case notOpen =>
    intro s hopen
    simp [tryNode_of_not_open hopen]
  case last =>
    intro s first misses hfirst ih
    rw [tryNodes_of_refused hfirst]
    exact ih
  case more =>
    intro s first tree rest shorter misses hfirst _ others _ ih ihOthers
    obtain ⟨_, heq⟩ := tryNodes_of_found hfirst
    rw [heq]
    simp only
    omega

/-! ## §4: Laying out within a bound -/

mutual

/-- Laying out a tree takes one call inside another for each of its levels. -/
theorem addTreeWithin_eq (calls : Nat) (t : Arena) (parent? : Option Nat) : (a : Ast) →
    t.addTreeWithin calls parent? a =
      if a.levels ≤ calls then some (t.addTree parent? a) else none
  | .node label token? children => by
    cases calls with
    | zero => simp [Arena.addTreeWithin, Ast.levels]
    | succ calls =>
      cases parent? <;>
        simp [Arena.addTreeWithin, Arena.addTree, addTreesWithin_eq calls _ _ children, Ast.levels]

theorem addTreesWithin_eq (calls : Nat) (t : Arena) (parent : Nat) : (as : List Ast) →
    t.addTreesWithin calls parent as =
      if Ast.levelsAll as ≤ calls then some (t.addTrees parent as) else none
  | [] => by simp [Arena.addTreesWithin, Arena.addTrees, Ast.levelsAll]
  | a :: as => by
    rw [Arena.addTreesWithin, addTreeWithin_eq calls t _ a, Ast.levelsAll, Arena.addTrees]
    by_cases h : a.levels ≤ calls
    · simp only [Nat.max_le, h, true_and, if_true]
      exact addTreesWithin_eq calls _ parent as
    · simp only [Nat.max_le, h, false_and, if_false]
      rfl

end

/-! ## §5: The parser -/

theorem mostOpened_le_deepestNesting (text : List Char) :
    mostOpened text ≤ deepestNesting text := by
  have hopened := opened_le_deepestFrom.1 (skip text) {} rfl (Nat.le_refl 0)
  rwa [← (gap_skip text).deepestFrom rfl, Nat.zero_add] at hopened

theorem readText_eq_readWhole {text : List Char} (h : deepestNesting text ≤ levels) :
    readText levels text = some (readWhole text) := by
  rw [readText_eq, if_pos (Nat.le_trans (mostOpened_le_deepestNesting text) h)]

/-- The parser reads as if nothing could cut it off. -/
theorem parse_eq (text : List Char) : parse text =
    if maxLevels < deepestNesting text then .error (.tooDeep (deepestNesting text))
    else (readWhole text).mapError fun misses => .malformed (.ofMisses text misses) := by
  by_cases hdeep : maxLevels < deepestNesting text
  · simp only [parse, if_pos hdeep]
  · simp only [parse, if_neg hdeep, readText_eq_readWhole (Nat.le_of_not_lt hdeep)]
    cases readWhole text <;> rfl

/-- **The measure bounds the recursion of the parser**, on every text. No more nodes are open
at once than parentheses nest, and one more at most is being tried. So a bound of that many
levels cuts no reading off, and what is read within it, the misses of a refused text included,
is what is read without a bound. A text that passes the measure is then read, and its tree
laid out, within the limit. -/
theorem recursion_within_nesting (text : List Char) :
    mostOpened text ≤ deepestNesting text ∧ mostActive text ≤ deepestNesting text + 1 ∧
      (∀ levels, deepestNesting text ≤ levels → readText levels text = some (readWhole text)) ∧
      (parse text =
        if 1000 < deepestNesting text then .error (.tooDeep (deepestNesting text))
        else (readWhole text).mapError fun misses => .malformed (.ofMisses text misses)) ∧
      (deepestNesting text ≤ 1000 → mostOpened text ≤ 1000) ∧
      ∀ tree, parse text = .ok tree →
        Arena.empty.addTreeWithin 1000 none tree = some tree.inPreOrder := by
  have hopened := mostOpened_le_deepestNesting text
  refine ⟨hopened, ?_, fun levels => readText_eq_readWhole, parse_eq text, Nat.le_trans hopened, ?_⟩
  · exact Nat.le_trans (active_le_opened.1 _) (Nat.succ_le_succ hopened)
  · intro tree hparse
    obtain ⟨hdepth, htext⟩ := parse_eq_ok_iff.mp hparse
    have hlevels : tree.levels ≤ 1000 := htext.deepestNesting_eq ▸ hdepth
    rw [addTreeWithin_eq, if_pos hlevels, Ast.inPreOrder]

/-- A text that is accepted, with parentheses that open nothing in a token and in a comment. -/
theorem recursion_within_nesting_commented :
    let text := "(a \"((\" (b)) ; (".toList
    let tree := Ast.node "a" (some "((") [.node "b" none []]
    deepestNesting text = 2 ∧ readText 2 text = some (readWhole text) ∧ readWhole text = .ok tree ∧
      mostOpened text ≤ 1000 ∧ parse text = .ok tree ∧
      Arena.empty.addTreeWithin 1000 none tree = some tree.inPreOrder := by
  intro text tree
  have hdepth : deepestNesting text = 2 := by decide +kernel
  have hread : readText 2 text = some (.ok tree) := by decide +kernel
  obtain ⟨_, _, hwithin, hparse, hopened, hlaid⟩ := recursion_within_nesting text
  rw [hdepth] at hwithin hparse hopened
  have hwhole := hwithin 2 (Nat.le_refl 2)
  have hok : readWhole text = .ok tree := Option.some.inj (hwhole.symm.trans hread)
  rw [hok] at hparse
  exact ⟨hdepth, hwhole, hok, hopened (by decide), hparse, hlaid tree hparse⟩

/-- Of a text that is refused the pass sees more than the reading comes to. -/
example :
    let text := "(a (b) \"x\" ((c".toList
    deepestNesting text = 3 ∧ readText 1 text = none ∧ (readText 2 text).isSome := by decide +kernel

end SExpr

end PathCorpus
