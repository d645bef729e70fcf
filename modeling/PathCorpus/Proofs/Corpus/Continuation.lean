import PathCorpus.Proofs.Corpus.Cutoff

/-!
# What is written only grows

A corpus that goes on adding entries never takes back what it has written. Written without
limits, its lines and its three dictionaries start with what was written before, character
by character. The ranks of its ids may all have changed in the meantime: without a limit no
line and no row depends on them.

The reason is a fact about lexicons, `Lexicon.Continues`: an observation leaves every text at
its id, and no count gets smaller. Coding a context is a few observations, and so this holds
from any corpus to every later one.

## Main statements

- `Lexicon.continues_observe`: what one observation leaves as it is.
- `Corpus.continues_code`, `Corpus.continues_addAll`: the same for a context and for a whole run.
- `Corpus.lines_unlimited`: without limits the lines depend on the samples alone.
- `Corpus.addAll_continues`: what was written before and after more entries.
-/

namespace PathCorpus

/-- Lines that go on from others make a text that goes on from theirs. -/
theorem Text.exists_join_append {before after : List String} (h : before <+: after) :
    ∃ more, String.join (after.map (· ++ "\n")) = String.join (before.map (· ++ "\n")) ++ more := by
  obtain ⟨rest, rfl⟩ := h
  exact ⟨_, by rw [List.map_append, String.join_append]⟩

namespace Lexicon

variable {x y z : Lexicon} {id : Nat} {v : String}

/-! ## §1: Lexicons -/

/-- `y` has grown from `x`, and no count has become smaller. -/
structure Continues (x y : Lexicon) : Prop extends x.Grows y where
  counts : ∀ {id n : Nat}, x.countOf? id = some n → ∃ n', y.countOf? id = some n' ∧ n ≤ n'

theorem Continues.refl (x : Lexicon) : x.Continues x := ⟨.refl x, fun h => ⟨_, h, Nat.le_refl _⟩⟩

theorem Continues.trans (h : x.Continues y) (h' : y.Continues z) : x.Continues z := by
  refine ⟨h.toGrows.trans h'.toGrows, fun hn => ?_⟩
  obtain ⟨n', hn', hle⟩ := h.counts hn
  obtain ⟨n'', hn'', hle'⟩ := h'.counts hn'
  exact ⟨n'', hn'', Nat.le_trans hle hle'⟩

theorem continues_observe (x : Lexicon) (v : String) : x.Continues (x.observe v).2 := by
  refine ⟨x.grows_observe v, fun {id n} hn => ?_⟩
  cases id with
  | zero => cases hn
  | succ place =>
    rw [countOf?_succ, Option.map_eq_some_iff] at hn
    obtain ⟨e, he, rfl⟩ := hn
    rw [countOf?_succ]
    obtain ⟨known, _, _, hentries⟩ | ⟨_, hentries⟩ := x.observe_cases v
    · -- a known text: one count is one more, and the others are as they were
      rw [hentries, Array.getElem?_modify, he]
      split
      · exact ⟨_, rfl, Nat.le_succ _⟩
      · exact ⟨_, rfl, Nat.le_refl _⟩
    · -- a new text: its entry comes after all others
      have hlt : place < x.entries.size := (Array.getElem?_eq_some_iff.mp he).1
      rw [hentries, Array.getElem?_push, if_neg (Nat.ne_of_lt hlt), he]
      exact ⟨_, rfl, Nat.le_refl _⟩

theorem continues_observeAll (x : Lexicon) (vs : List String) :
    x.Continues (x.observeAll vs).2 := by
  induction vs generalizing x with
  | nil => exact .refl x
  | cons v vs ih => exact (x.continues_observe v).trans (ih (x.observe v).2)

theorem getElem?_toList (x : Lexicon) (place : Nat) :
    x.toList[place]? = (x.valueOf? (place + 1)).map fun v => (place + 1, v) := by
  simp [toList, valueOf?_succ, Function.comp_def]

theorem Grows.prefix_toList (h : x.Grows y) : x.toList <+: y.toList := by
  rw [List.prefix_iff_getElem?]
  intro place hplace
  -- the pair at a place is made of an id and of the text that the id keeps
  have hpair := List.getElem?_eq_getElem hplace
  rw [getElem?_toList, Option.map_eq_some_iff] at hpair
  obtain ⟨v, hv, hpair⟩ := hpair
  rw [getElem?_toList, h.values hv, Option.map_some, hpair]

/-- Without a limit there is a row for every text, whatever its rank. -/
theorem dictionaryRows_unlimited (x : Lexicon) :
    x.dictionaryRows .unlimited = x.toList.map fun (id, v) => dictionaryRow id v := by
  simp [dictionaryRows]

theorem Grows.exists_dictionary_append (h : x.Grows y) :
    ∃ more, y.dictionary .unlimited = x.dictionary .unlimited ++ more := by
  refine Text.exists_join_append ?_
  rw [dictionaryHeader, dictionaryHeader, h.kind, dictionaryRows_unlimited,
    dictionaryRows_unlimited]
  exact (List.prefix_cons_inj _).mpr (h.prefix_toList.map _)

end Lexicon

/-! ## §2: Corpora -/

namespace Corpus

/-- All three lexicons go on from those of `c`. -/
structure Continues (c c' : Corpus) : Prop where
  tokens : c.tokens.Continues c'.tokens
  nodeTypes : c.nodeTypes.Continues c'.nodeTypes
  paths : c.paths.Continues c'.paths

theorem Continues.refl (c : Corpus) : c.Continues c := ⟨.refl _, .refl _, .refl _⟩

theorem Continues.trans {c₁ c₂ c₃ : Corpus} (h : c₁.Continues c₂) (h' : c₂.Continues c₃) :
    c₁.Continues c₃ :=
  ⟨h.tokens.trans h'.tokens, h.nodeTypes.trans h'.nodeTypes, h.paths.trans h'.paths⟩

theorem continues_code (c : Corpus) (context : PathContext) :
    c.Continues (c.code context).2 where
  tokens := (c.tokens.continues_observe _).trans (Lexicon.continues_observe _ _)
  nodeTypes := c.nodeTypes.continues_observeAll _
  paths := c.paths.continues_observe _

theorem continues_addAll (c : Corpus) (entries : List (String × List PathContext)) :
    c.Continues (c.addAll entries) := by
  -- a property of the corpora of a run, which leaves what they code open
  refine @addAll_induction (fun c' _ _ => c.Continues c') ?_ ?_ c [] (.refl c) entries
  · intro c' xs given context h
    exact h.trans (c'.continues_code context)
  · intro c' xs given samples h
    exact ⟨h.tokens, h.nodeTypes, h.paths⟩

/-- Without limits every context is on its line. -/
theorem lines_unlimited (entries : List (String × List PathContext)) :
    (ofEntries entries).lines .unlimited =
      (ofEntries entries).samples.toList.map fun s => s.line fun _ => true := by
  obtain ⟨keys, h⟩ := exists_counted_ofEntries entries
  rw [h.lines_eq]
  refine List.map_congr_left fun s _ => ?_
  exact congrArg s.line (funext fun x => decide_eq_true ⟨trivial, trivial, trivial⟩)

/-- **What is written only grows**: after a run and more entries the samples of the run are still
there, unchanged, and the lines and the dictionaries, written without limits, start with those that
were written before. Ids and texts belong together as they did, and no count is smaller. -/
theorem addAll_continues (entries later : List (String × List PathContext)) :
    let c := ofEntries entries
    let c' := c.addAll later
    c.samples.toList <+: c'.samples.toList ∧
      (∃ more, c'.text .unlimited = c.text .unlimited ++ more) ∧
      ∀ lexicon ∈ [Corpus.tokens, Corpus.nodeTypes, Corpus.paths],
        (∃ more, (lexicon c').dictionary .unlimited = (lexicon c).dictionary .unlimited ++ more) ∧
        (∀ id v, (lexicon c).valueOf? id = some v → (lexicon c').valueOf? id = some v) ∧
        (∀ v id, (lexicon c).idOf? v = some id → (lexicon c').idOf? v = some id) ∧
        ∀ id n, (lexicon c).countOf? id = some n →
          ∃ n', (lexicon c').countOf? id = some n' ∧ n ≤ n' := by
  intro c c'
  have hsamples : c.samples.toList <+: c'.samples.toList := c.prefix_samples_addAll later
  have hcontinues : c.Continues c' := c.continues_addAll later
  refine ⟨hsamples, ?_, fun lexicon hlexicon => ?_⟩
  · have hlines : c.lines .unlimited <+: c'.lines .unlimited := by
      -- without limits a line depends on its sample only
      simp only [c', c, ← ofEntries_append, lines_unlimited]
      rw [ofEntries_append]
      exact hsamples.map _
    exact Text.exists_join_append hlines
  · have h : (lexicon c).Continues (lexicon c') := by
      simp only [List.mem_cons, List.not_mem_nil, or_false] at hlexicon
      rcases hlexicon with rfl | rfl | rfl
      · exact hcontinues.tokens
      · exact hcontinues.nodeTypes
      · exact hcontinues.paths
    refine ⟨h.exists_dictionary_append, fun id v => h.values, fun v id => ?_, fun id n => h.counts⟩
    rw [Lexicon.idOf?_eq_some_iff, Lexicon.idOf?_eq_some_iff]
    exact h.values

/-- A token that is no longer the most frequent one after the second sample. -/
theorem addAll_continues_overtaken :
    let p : PathShape := ⟨["A"], "R", ["B"]⟩
    let c := ofEntries [("x", [⟨"t", p, "u"⟩, ⟨"t", p, "t"⟩])]
    let c' := c.addAll [("y", [⟨"u", p, "u"⟩, ⟨"v", p, "u"⟩])]
    c.tokens.countOf? 2 = some 1 ∧ c'.tokens.countOf? 2 = some 4 ∧
      (∃ more, c'.text .unlimited = "x 1,1,2 1,1,1\n" ++ more) ∧
      (∃ more, c'.tokens.dictionary .unlimited = "id,token\n1,t\n2,u\n" ++ more) ∧
      c'.tokens.valueOf? 1 = some "t" ∧ ∃ n, c'.tokens.countOf? 1 = some n ∧ 3 ≤ n := by
  intro p c c'
  obtain ⟨-, htext, hlexicons⟩ := addAll_continues [("x", [⟨"t", p, "u"⟩, ⟨"t", p, "t"⟩])]
    [("y", [⟨"u", p, "u"⟩, ⟨"v", p, "u"⟩])]
  obtain ⟨hdictionary, hvalues, -, hcounts⟩ := hlexicons Corpus.tokens List.mem_cons_self
  have hbefore : c.text .unlimited = "x 1,1,2 1,1,1\n" := by
    rw [Corpus.text, lines_unlimited]
    decide +kernel
  have hrows : c.tokens.dictionary .unlimited = "id,token\n1,t\n2,u\n" := by decide +kernel
  refine ⟨by decide +kernel, by decide +kernel, hbefore ▸ htext, hrows ▸ hdictionary,
    hvalues 1 "t" ?_, hcounts 1 3 ?_⟩ <;> decide +kernel

end Corpus

end PathCorpus
