import Mathlib.Algebra.GroupWithZero.Nat
import PathCorpus.Proofs.Corpus.Coding
import PathCorpus.Proofs.Lexicon.Tally

/-!
# Counts of a whole run

The samples of a corpus say all that its three lexicons count. Read in order, the coded
contexts give the list of token ids, the start of a context before its end, and the list of
path ids; the keys of their paths, one after another, give the list of label ids. Each lexicon
tallies its list: its counts are the numbers of occurrences there, and its ids are numbered in
the order of first occurrence.

## Main statements

- `Corpus.Counted.code`: coding one context keeps the three tallies.
- `Corpus.counts_ofEntries`: the counts and the numbering after a run.
-/

namespace PathCorpus

namespace Corpus

/-- The ids of the tokens of some coded contexts, in order. -/
def tokenIds (xs : List CodedContext) : List Nat := xs.flatMap fun x => [x.start, x.finish]

/-- Each lexicon tallies the ids that some coded contexts hold, the label ids by way of the keys of
their paths. -/
structure Counted (c : Corpus) (xs : List CodedContext) (keys : List (List Nat)) : Prop where
  keyed : List.Forall₂ (fun x ids => c.paths.valueOf? x.path = some (keyOfIds ids)) xs keys
  tokens : c.tokens.Tallies (tokenIds xs)
  paths : c.paths.Tallies (xs.map (·.path))
  nodeTypes : c.nodeTypes.Tallies keys.flatten

variable {c : Corpus} {xs : List CodedContext} {keys : List (List Nat)}

theorem counted_empty : empty.Counted [] [] :=
  ⟨.nil, Lexicon.tallies_empty _, Lexicon.tallies_empty _, Lexicon.tallies_empty _⟩

/-- Coding a context appends its two tokens, its path, and the ids of the labels along it. -/
theorem Counted.code (h : c.Counted xs keys) (context : PathContext) :
    (c.code context).2.Counted (xs ++ [(c.code context).1])
      (keys ++ [(c.nodeTypes.observeAll context.shape.directedLabels).1]) where
  keyed := by
    have hold := h.keyed.imp fun _ _ => (c.grows_code context).paths.values
    exact List.rel_append hold (.cons (c.paths.valueOf?_observe _) .nil)
  tokens := by
    have hboth := (h.tokens.observe context.startToken).observe context.finishToken
    simpa [tokenIds, Corpus.code] using hboth
  paths := by
    rw [List.map_append]
    exact h.paths.observe _
  nodeTypes := by
    rw [List.flatten_append, List.flatten_singleton]
    exact h.nodeTypes.observeAll _

theorem exists_counted_ofEntries (entries : List (String × List PathContext)) :
    ∃ keys, (ofEntries entries).Counted (ofEntries entries).contexts keys := by
  refine ofEntries_induction (R := fun c xs _ => ∃ keys, c.Counted xs keys) ?_ ?_
    ⟨[], counted_empty⟩ entries
  · rintro c xs given context ⟨keys, h⟩
    exact ⟨_, h.code context⟩
  · -- the samples themselves are not counted
    rintro c xs given samples ⟨keys, h⟩
    exact ⟨keys, h.keyed, h.tokens, h.paths, h.nodeTypes⟩

/-- **Counts mirror what is stored**: after a run the key of every stored path can be read. A token
is counted as often as its id stands at the start or the end of a stored context, a path as often
as its id does, and a label as often as its id occurs in the keys of the stored contexts together.
Whatever has an id was counted. Ids are numbered as they first occur in the stored contexts. -/
theorem counts_ofEntries (entries : List (String × List PathContext)) :
    let c := ofEntries entries
    ∃ keys, c.contexts.mapM (fun x => c.labelIdsOf? x.path) = some keys ∧
      c.tokens.Tallies (tokenIds c.contexts) ∧ c.paths.Tallies (c.contexts.map (·.path)) ∧
      c.nodeTypes.Tallies keys.flatten ∧
      (∀ id ∈ keys.flatten, c.nodeTypes.countOf? id = some (keys.map (·.count id)).sum) ∧
      ∀ x ∈ [c.tokens, c.paths, c.nodeTypes], ∀ id v, x.valueOf? id = some v →
        ∃ n, x.countOf? id = some n ∧ 1 ≤ n := by
  intro c
  obtain ⟨keys, h⟩ := exists_counted_ofEntries entries
  have hkeys : c.contexts.mapM (fun x => c.labelIdsOf? x.path) = some keys :=
    mapM_eq_some (h.keyed.imp fun _ _ => labelIdsOf?_eq)
  refine ⟨keys, hkeys, h.tokens, h.paths, h.nodeTypes, fun id hid => ?_, ?_⟩
  · rw [h.nodeTypes.counts, if_pos hid, List.count_flatten]
  · simp only [List.forall_mem_cons, List.not_mem_nil, false_imp_iff, implies_true, and_true]
    exact ⟨fun _ _ => h.tokens.exists_countOf?, fun _ _ => h.paths.exists_countOf?,
      fun _ _ => h.nodeTypes.exists_countOf?⟩

/-- A label three times along a path, and a context that starts and ends with one token. -/
theorem counts_ofEntries_repeats :
    let shape : PathShape := ⟨["A", "A"], "A", ["B"]⟩
    let c := ofEntries [("x", [⟨"t", shape, "t"⟩]), ("y", [⟨"u", shape, "t"⟩])]
    c.contexts = [⟨1, 1, 1⟩, ⟨2, 1, 1⟩] ∧ c.tokens.countOf? 1 = some 3 ∧
      c.paths.countOf? 1 = some 2 ∧ c.nodeTypes.countOf? 1 = some 6 := by
  intro shape c
  obtain ⟨keys, hkeys, htokens, hpaths, hlabels, _⟩ :=
    counts_ofEntries [("x", [⟨"t", shape, "t"⟩]), ("y", [⟨"u", shape, "t"⟩])]
  have hcontexts : c.contexts = [⟨1, 1, 1⟩, ⟨2, 1, 1⟩] := by decide +kernel
  have hkey : c.paths.valueOf? 1 = some (keyOfIds [1, 1, 1, 2]) := by decide +kernel
  have hread : c.contexts.mapM (fun x => c.labelIdsOf? x.path) =
      some [[1, 1, 1, 2], [1, 1, 1, 2]] := by
    rw [hcontexts]
    simp [List.mapM_cons, labelIdsOf?_eq hkey]
  obtain rfl : [[1, 1, 1, 2], [1, 1, 1, 2]] = keys := Option.some.inj (hread.symm.trans hkeys)
  refine ⟨hcontexts, (htokens.counts 1).trans ?_, (hpaths.counts 1).trans ?_, hlabels.counts 1⟩
  · rw [hcontexts]
    rfl
  · rw [hcontexts]
    rfl

end Corpus

end PathCorpus
