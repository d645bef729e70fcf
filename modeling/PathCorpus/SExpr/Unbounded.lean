import PathCorpus.Ast.Numbering
import PathCorpus.SExpr.Reading

/-!
# Reading without a bound

The same reading with nothing to cut it off. It keeps count of its own recursion: how many nodes
were being tried at once, and of how many nodes at once the opening parenthesis had been read
and the end had not. What comes after an attempt starts again from none, so the counts of parts
that are read one after the other do not add up.

Laying a tree out recurses as well, one call inside another for each level of the tree. Here it is
also given with a bound, so that what it needs can be said.
-/

namespace PathCorpus

namespace SExpr

/-! ## §1: Attempts and their recursion -/

/-- An attempt of a node, and the recursion that it took. -/
structure Trial (s : List Char) where
  attempt : Attempt s
  /-- The most nodes at once that had their opening parenthesis read and were not at their end. -/
  opened : Nat
  /-- The most nodes at once that were being tried. -/
  active : Nat

/-- A run of nodes, and the recursion that it took. -/
structure Series (s : List Char) where
  run : Run s
  opened : Nat
  active : Nat

/-- A node that is closed takes at least its parentheses. -/
theorem Head.length_lt {s rest : List Char} (head : Head s) {run : Run head.rest}
    (h : run.rest = ')' :: rest) : rest.length < ('(' :: s).length := by
  have hhead := head.shorter
  have hrun := run.shorter
  rw [h] at hrun
  simp only [List.length_cons] at hrun ⊢
  omega

/-- What becomes of a node once its children are read: it is found if a closing parenthesis comes
next. -/
def Head.close {s : List Char} (head : Head s) (run : Run head.rest) : Attempt ('(' :: s) :=
  match h : run.rest with
  | ')' :: rest =>
    .found (.node head.label head.token? run.trees) rest (head.length_lt h)
      (head.misses ++ run.misses)
  | _ => .refused (head.misses ++ run.misses)

mutual

/-- Tries a node. -/
def tryNode (s : List Char) : Trial s :=
  match s with
  | '(' :: s =>
    match readHead? s with
    | none => { attempt := .refused [⟨.label, skip s⟩], opened := 1, active := 1 }
    | some head =>
      have := head.shorter
      let series := tryNodes head.rest
      -- the node itself stays open while its children are tried
      { attempt := head.close series.run
        opened := series.opened + 1
        active := series.active + 1 }
  | s => { attempt := .refused [⟨.node, s⟩], opened := 0, active := 1 }
termination_by (s.length, 0)
decreasing_by
  apply Prod.Lex.left
  simp only [List.length_cons]
  omega

/-- Tries nodes and the gaps after them until one is missed. -/
def tryNodes (s : List Char) : Series s :=
  let first := tryNode s
  match first.attempt with
  | .refused misses =>
    { run := ⟨[], s, Nat.le_refl _, misses⟩, opened := first.opened, active := first.active }
  | .found tree rest shorter misses =>
    have hr := length_skip_le rest
    let others := tryNodes (skip rest)
    have h := others.run.shorter
    { run := ⟨tree :: others.run.trees, others.run.rest, by omega, misses ++ others.run.misses⟩
      opened := max first.opened others.opened
      active := max first.active others.active }
termination_by (s.length, 1)
decreasing_by
  · exact Prod.Lex.right _ (by decide)
  · exact Prod.Lex.left _ _ (by omega)

end

/-! ## §2: A whole text -/

/-- Reads a text that is one node with gaps around it: its tree, or the misses of the attempt. -/
def readWhole (text : List Char) : Except (List Miss) Ast :=
  match (tryNode (skip text)).attempt with
  | .refused misses => .error misses
  | .found tree rest _ misses =>
    if skip rest = [] then .ok tree else .error (misses ++ [⟨.endOfText, skip rest⟩])

/-- The most nodes that are open at once while a text is read. -/
def mostOpened (text : List Char) : Nat := (tryNode (skip text)).opened

/-- The most nodes that are tried at once while a text is read. -/
def mostActive (text : List Char) : Nat := (tryNode (skip text)).active

end SExpr

/-! ## §3: Laying out within a bound -/

namespace Arena

mutual

/-- Appends a tree with at most so many calls inside one another. None if it takes more. -/
def addTreeWithin (calls : Nat) (t : Arena) (parent? : Option Nat) : Ast → Option Arena
  | .node label token? children =>
    match calls with
    | 0 => none
    | calls + 1 =>
      let id := t.size
      let t :=
        match parent? with
        | some parent => t.addChild parent label token?
        | none => t.addNode label token?
      t.addTreesWithin calls id children

/-- Appends trees one after another as the last children of a node. -/
def addTreesWithin (calls : Nat) (t : Arena) (parent : Nat) : List Ast → Option Arena
  | [] => some t
  | a :: as => do
    let t ← t.addTreeWithin calls (some parent) a
    t.addTreesWithin calls parent as

end

end Arena

end PathCorpus
