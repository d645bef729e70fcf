import PathCorpus.Ast.Basic
import PathCorpus.SExpr.Lexeme

/-!
# Reading a tree from an S-expression

The grammar, with gaps allowed between any two parts:

    text = node
    node = "(" label [token] node* ")"

Reading goes from left to right and never takes back what it has read. Wherever a part is
tried and is not there, the attempt is noted as a *miss*: the part, and the text left at that
place. Misses are noted in the order of the text, so the last ones tell how far reading got
and what could have stood there.

Recursion is bounded by a number of levels. A node that would open one level too many cuts the
reading off, which is not the same as refusing the text. Each way on leaves less text, and carries
the proof of it, which is why a run of nodes ends.
-/

namespace PathCorpus.SExpr

/-! ## §1: Attempts -/

/-- The parts that an attempt can miss. -/
inductive Part where
  | endOfText
  | node
  | label
  | token
  deriving DecidableEq, Repr

/-- A part that was tried and was not there, and the text from that place on. -/
structure Miss where
  part : Part
  rest : List Char
  deriving DecidableEq, Repr

/-- The outcome of trying a node at the start of `s`. -/
inductive Attempt (s : List Char) where
  | found (tree : Ast) (rest : List Char) (shorter : rest.length < s.length) (misses : List Miss)
  | refused (misses : List Miss)

/-- The nodes read at the start of `s`, as many as there are. The misses include that of the
node after the last one. -/
structure Run (s : List Char) where
  trees : List Ast
  rest : List Char
  shorter : rest.length ≤ s.length
  misses : List Miss

/-- The label and the token that come after the opening parenthesis of a node. -/
structure Head (s : List Char) where
  label : String
  token? : Option String
  rest : List Char
  shorter : rest.length ≤ s.length
  misses : List Miss

/-! ## §2: The parts of a node -/

/-- Reads a label, a token if there is one, and the gaps around them. None if there is no label. -/
def readHead? (s : List Char) : Option (Head s) :=
  let label := (skip s).takeWhile isLabelChar
  if label = [] then none
  else
    let afterLabel := (skip s).dropWhile isLabelChar
    have hs := length_skip_le s
    have hl : afterLabel.length ≤ (skip s).length := (List.dropWhile_suffix _).length_le
    have ha := length_skip_le afterLabel
    match h : token? (skip afterLabel) with
    | some (text, rest) =>
      have ht := length_token?_lt h
      have hr := length_skip_le rest
      some ⟨String.ofList label, some (String.ofList text), skip rest, by omega, []⟩
    | none =>
      some ⟨String.ofList label, none, skip afterLabel, by omega, [⟨.token, skip afterLabel⟩]⟩

/-- Reads nodes and the gaps after them until one is missed. None if a node was cut off. -/
def readNodes (readNode : (s : List Char) → Option (Attempt s)) (s : List Char) : Option (Run s) :=
  match readNode s with
  | none => none
  | some (.refused misses) => some ⟨[], s, Nat.le_refl _, misses⟩
  | some (.found tree rest shorter misses) =>
    have hr := length_skip_le rest
    match readNodes readNode (skip rest) with
    | none => none
    | some run =>
      have h := run.shorter
      some ⟨tree :: run.trees, run.rest, by omega, misses ++ run.misses⟩
termination_by s.length
decreasing_by omega

/-- Reads a node that opens at most `levels` levels. None if it would open more. -/
def readNode (levels : Nat) (s : List Char) : Option (Attempt s) :=
  match s with
  | '(' :: s =>
    match levels with
    | 0 => none
    | levels + 1 =>
      match readHead? s with
      | none => some (.refused [⟨.label, skip s⟩])
      | some head =>
        match readNodes (readNode levels) head.rest with
        | none => none
        | some run =>
          -- a missing parenthesis is no miss of its own: a node was tried at the same place
          have hh := head.shorter
          have hn := run.shorter
          match h : run.rest with
          | ')' :: rest =>
            have hr : run.rest.length = rest.length + 1 := by simp [h]
            some (.found (.node head.label head.token? run.trees) rest
              (by simp only [List.length_cons]; omega) (head.misses ++ run.misses))
          | _ => some (.refused (head.misses ++ run.misses))
  | s => some (.refused [⟨.node, s⟩])
termination_by structural levels

/-! ## §3: A whole text -/

/-- Reads a text that is one node with gaps around it: its tree, or the misses of the attempt.
None if it opens more than `levels` levels. -/
def readText (levels : Nat) (text : List Char) : Option (Except (List Miss) Ast) :=
  match readNode levels (skip text) with
  | none => none
  | some (.refused misses) => some (.error misses)
  | some (.found tree rest _ misses) =>
    if skip rest = [] then some (.ok tree) else some (.error (misses ++ [⟨.endOfText, skip rest⟩]))

end PathCorpus.SExpr
