import PathCorpus.Lexicon.Rank

/-!
# Lexicons that keep their ranks

The table of ranks takes a sort of all texts. So it is made when a rank is first asked for, and kept
for the questions after that. An observation changes the counts, and the table is dropped.
-/

namespace PathCorpus

/-- A lexicon, and the table of its ranks if one was made since the last observation. -/
structure RankedLexicon where
  lexicon : Lexicon
  ranks? : Option (Array Nat) := none

namespace RankedLexicon

/-! ## §1: The table -/

/-- The lexicon that has observed nothing. -/
def empty (kind : String) : RankedLexicon := { lexicon := .empty kind }

/-- Counts one observation of a text: the text's id, and the lexicon after it. -/
def observe (x : RankedLexicon) (v : String) : Nat × RankedLexicon :=
  let (id, lexicon) := x.lexicon.observe v
  (id, { lexicon })

/-- The ranks by place, and the lexicon that keeps them. -/
def ranks (x : RankedLexicon) : Array Nat × RankedLexicon :=
  match x.ranks? with
  | some ranks => (ranks, x)
  | none =>
    let ranks := x.lexicon.ranks
    (ranks, { x with ranks? := some ranks })

/-- The rank of an id, and the lexicon that keeps the table. -/
def rankOf? (x : RankedLexicon) (id : Nat) : Option Nat × RankedLexicon :=
  -- the table is made even if the id turns out to have no place in it
  let (ranks, x) := x.ranks
  match id with
  | 0 => (none, x)
  | place + 1 => (ranks[place]?, x)

/-! ## §2: Questions -/

/-- What a lexicon can be asked, by the type of the answer. -/
inductive Query : Type → Type where
  /-- To count an observation, and to tell the id of the text. -/
  | observe (v : String) : Query Nat
  | idOf (v : String) : Query (Option Nat)
  | valueOf (id : Nat) : Query (Option String)
  | countOf (id : Nat) : Query (Option Nat)
  | rankOf (id : Nat) : Query (Option Nat)
  | ranks : Query (List Nat)
  | size : Query Nat
  | isEmpty : Query Bool
  /-- The texts with their ids. -/
  | toList : Query (List (Nat × String))

/-- The answer to a question, and the lexicon after it. -/
def answer (x : RankedLexicon) {α : Type} : Query α → α × RankedLexicon
  | .observe v => x.observe v
  | .idOf v => (x.lexicon.idOf? v, x)
  | .valueOf id => (x.lexicon.valueOf? id, x)
  | .countOf id => (x.lexicon.countOf? id, x)
  | .rankOf id => x.rankOf? id
  | .ranks => let (ranks, x) := x.ranks; (ranks.toList, x)
  | .size => (x.lexicon.size, x)
  | .isEmpty => (x.lexicon.isEmpty, x)
  | .toList => (x.lexicon.toList, x)

/-- The lexicon after a history of questions. -/
def after (x : RankedLexicon) (history : List (Sigma Query)) : RankedLexicon :=
  history.foldl (fun x q => (x.answer q.2).2) x

end RankedLexicon

end PathCorpus
