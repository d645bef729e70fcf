import PathCorpus.Proofs.Ast.ByFamilies
import PathCorpus.Proofs.Ast.Unfolding
import PathCorpus.Proofs.Extraction.Batch
import PathCorpus.Proofs.SExpr.Printed

/-!
# Ids make no difference

Whichever ids the nodes of a tree have, its search works with nothing but these ids: it looks
depths up by them, climbs along them and compares them. What comes out depends on the syntax tree
alone. Two arenas that unfold to one tree have the same contexts, so it makes no difference which
of them is offered. In particular a tree may be laid out family by family or come from its text.

## Main statements

- `Extraction.offer_eq`: what an offer comes to, from the contexts of the tree.
- `Ast.unfolds_inPreOrder`, `Ast.unfolds_byFamilies`: two numberings of one tree.
- `Extraction.offer_of_unfolds`: arenas that unfold to one tree.
-/

namespace PathCorpus

open SExpr (IsText IsTypeLabel parseArena)

/-! ## §1: Numberings -/

theorem Ast.unfolds_inPreOrder (a : Ast) : a.inPreOrder.Unfolds a :=
  have h := a.isNumbering_inPreOrder
  ⟨h.accepted, 0, h.root, h.shows⟩

theorem Ast.unfolds_byFamilies (a : Ast) : a.byFamilies.Unfolds a :=
  ⟨a.accepted_byFamilies, 0, a.rooted_byFamilies.named, a.shows_byFamilies⟩

/-- Every tree has contexts, and they are the same for arenas that unfold to one tree. -/
theorem Arena.Unfolds.exists_contexts {t u : Arena} {a : Ast} (ht : t.Unfolds a) (hu : u.Unfolds a)
    (bounds : PathBounds) (limit : Limit) :
    ∃ contexts,
      t.contexts bounds limit = .ok contexts ∧ u.contexts bounds limit = .ok contexts := by
  obtain ⟨root, below, hrooted, -⟩ := Arena.check_eq_ok_iff.mp ht.accepted
  refine ⟨_, hrooted.contexts_eq ht.accepted bounds limit, ?_⟩
  rw [← hrooted.contexts_eq ht.accepted, ht.contexts_eq, hu.contexts_eq]

/-! ## §2: Offers -/

namespace Extraction

/-- An offer looks at nothing of a tree but its contexts, or the defect that keeps it from having
any. -/
theorem offer_eq (e : Extraction) (label : String) (t : Arena) :
    e.offer label t =
      if isLabel label then
        match t.contexts (e.config.bounds e.valid) e.config.maxPathContexts with
        | .ok contexts => (.ok (e.keep label contexts).1, (e.keep label contexts).2)
        | .error d => (.error (.noTree d), e.reject (some label) (.noTree d))
      else (.error (.badLabel label), e.reject (some label) (.badLabel label)) := by
  by_cases hlabel : isLabel label = true
  · cases hsearch : t.search (e.config.bounds e.valid) with
    | error d => simp [offer, searchOf, Arena.contexts, hlabel, hsearch, Except.map]
    | ok search =>
      have hsearchOf : searchOf e.config e.valid label t = .ok search := by
        simp [searchOf, hlabel, hsearch]
      simp [offer, hsearchOf, Arena.contexts, hlabel, hsearch, Except.map, keepFound_eq_keep,
        Search.contextsUpTo, tree_of_searchOf hsearchOf]
  · simp [offer, searchOf, hlabel]

/-- **Ids make no difference**: arenas that unfold to one syntax tree have the same contexts
under all bounds and limits, so every extraction takes the one as it takes the other. So do the
arena that is built family by family and the one that is read from any text of the tree; and if
the labels can be written, there is such a text. -/
theorem offer_of_unfolds (a : Ast) :
    (∀ t u : Arena, t.Unfolds a → u.Unfolds a →
      (∀ bounds limit, ∃ contexts,
        t.contexts bounds limit = .ok contexts ∧ u.contexts bounds limit = .ok contexts) ∧
      ∀ (e : Extraction) label, e.offer label t = e.offer label u) ∧
    ((∀ label ∈ a.labels, IsTypeLabel label) → a.levels ≤ 1000 →
      (∃ text : String, IsText text.toList a) ∧
      ∀ text : String, IsText text.toList a →
        ∃ t, parseArena text = .ok t ∧ t.Unfolds a ∧ a.byFamilies.Unfolds a ∧
          ∀ bounds limit, ∃ contexts, a.byFamilies.contexts bounds limit = .ok contexts ∧
            t.contexts bounds limit = .ok contexts) := by
  refine ⟨fun t u ht hu => ⟨ht.exists_contexts hu, fun e label => ?_⟩, fun hlabels hlevels => ?_⟩
  · rw [offer_eq, offer_eq, ht.contexts_eq, hu.contexts_eq]
  · refine ⟨⟨String.ofList (SExpr.print a), ?_⟩, fun text htext => ?_⟩
    · rw [String.toList_ofList]
      exact SExpr.isText_print hlabels
    · have hparse : parseArena text = .ok a.inPreOrder :=
        SExpr.parseArena_eq_ok_iff.mpr ⟨a, htext.parse_eq_ok hlevels, rfl⟩
      refine ⟨a.inPreOrder, hparse, a.unfolds_inPreOrder, a.unfolds_byFamilies, ?_⟩
      exact a.unfolds_byFamilies.exists_contexts a.unfolds_inPreOrder

/-- A tree whose two arenas have different ids, and one context. -/
theorem offer_of_unfolds_renumbered :
    let a := Ast.node "R" none [.node "A" none [.node "B" (some "b") []], .node "C" (some "c") []]
    let contexts : List PathContext := [⟨"b", ⟨["B", "A"], "R", ["C"]⟩, "c"⟩]
    ∃ t, parseArena "(R (A (B \"b\")) (C \"c\"))" = .ok t ∧ a.byFamilies ≠ t ∧
      a.byFamilies.contexts .unbounded .unlimited = .ok contexts ∧
      t.contexts .unbounded .unlimited = .ok contexts ∧
      ∀ (e : Extraction) label, e.offer label a.byFamilies = e.offer label t := by
  intro a contexts
  obtain ⟨hunfold, htexts⟩ := offer_of_unfolds a
  have hlabels : ∀ label ∈ a.labels, IsTypeLabel label := by decide +kernel
  have htext : IsText "(R (A (B \"b\")) (C \"c\"))".toList a := by
    rw [show "(R (A (B \"b\")) (C \"c\"))".toList = SExpr.print a by decide +kernel]
    exact SExpr.isText_print hlabels
  obtain ⟨-, hparse⟩ := htexts hlabels (by decide)
  obtain ⟨t, ht, htunfolds, hunfolds, hcontexts⟩ := hparse _ htext
  obtain ⟨found, hfound, hfound'⟩ := hcontexts .unbounded .unlimited
  have hknown : a.byFamilies.contexts .unbounded .unlimited = .ok contexts := by
    rw [a.rooted_byFamilies.contexts_eq a.accepted_byFamilies]
    exact congrArg Except.ok (by decide +kernel)
  have heq : found = contexts := Except.ok.inj (hfound.symm.trans hknown)
  refine ⟨t, ht, ?_, hknown, heq ▸ hfound', (hunfold _ _ hunfolds htunfolds).2⟩
  -- what is read from the text is the numbering in pre-order
  obtain ⟨b, hb, rfl⟩ := SExpr.parseArena_eq_ok_iff.mp ht
  obtain rfl := Except.ok.inj (hb.symm.trans (htext.parse_eq_ok (by decide)))
  decide +kernel

end Extraction

end PathCorpus
