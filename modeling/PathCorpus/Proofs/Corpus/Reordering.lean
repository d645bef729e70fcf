import PathCorpus.Proofs.Corpus.Counts
import PathCorpus.Proofs.Lexicon.Standing

/-!
# The order of entries decides ids and nothing else

Entries in another order are given other ids, on two levels: the labels along a path get other
ids, so the path is observed under another key, and this key gets another id. Still each
lexicon tallies the things that it was given, tokens and labels under their texts and paths
under their shapes. These are the same things in another order, so all counts are the same, and
so are the ranks of things that were counted unequally often. What is stored can be read back
from its ids, and gives the entries.

## Main statements

- `Corpus.Codes.shapeId?_eq`, `Corpus.shapeId?_injective`: the id of a shape.
- `Corpus.talliesBy_ofEntries`: what the three lexicons tally.
- `Corpus.countsAlike_ofEntries`: two orders of the same entries.
- `Corpus.entries?_ofEntries`: what is stored, read back.
-/

namespace PathCorpus

namespace Corpus

variable {c c' : Corpus} {x : CodedContext} {context : PathContext}
  {entries entries' : List (String × List PathContext)}

/-! ## §1: The id of a shape -/

/-- The id of a path by its shape: that of the key made of the ids of the labels along it. -/
def shapeId? (c : Corpus) (shape : PathShape) : Option Nat := do
  let ids ← shape.directedLabels.mapM c.nodeTypes.idOf?
  c.paths.idOf? (keyOfIds ids)

theorem keyOfIds_injective {ids ids' : List Nat} (h : keyOfIds ids = keyOfIds ids') :
    ids = ids' := by
  have hread := readKey?_keyOfIds ids
  rw [h, readKey?_keyOfIds, Option.some.injEq] at hread
  exact hread.symm

/-- A coded path has the id of its shape. -/
theorem Codes.shapeId?_eq (h : c.Codes x context) : c.shapeId? context.shape = some x.path := by
  obtain ⟨ids, hkey, hlabels⟩ := h.path
  have hids : context.shape.directedLabels.mapM c.nodeTypes.idOf? = some ids :=
    mapM_eq_some (hlabels.flip.imp fun _ _ => Lexicon.idOf?_eq_some_iff.mpr)
  rw [shapeId?, hids]
  exact Lexicon.idOf?_eq_some_iff.mpr hkey

/-- The id of a shape stands for a key, and the key for the labels of the shape. -/
theorem exists_key_of_shapeId? {shape : PathShape} {id : Nat} (h : c.shapeId? shape = some id) :
    ∃ ids, c.paths.valueOf? id = some (keyOfIds ids) ∧
      shape.directedLabels.mapM c.nodeTypes.idOf? = some ids := by
  obtain ⟨ids, hids, hid⟩ := Option.bind_eq_some_iff.mp h
  exact ⟨ids, Lexicon.idOf?_eq_some_iff.mp hid, hids⟩

theorem shapeId?_injective {shape shape' : PathShape} {id : Nat} (h : c.shapeId? shape = some id)
    (h' : c.shapeId? shape' = some id) : shape = shape' := by
  obtain ⟨ids, hkey, hids⟩ := exists_key_of_shapeId? h
  obtain ⟨ids', hkey', hids'⟩ := exists_key_of_shapeId? h'
  obtain rfl := keyOfIds_injective (Option.some.inj (hkey.symm.trans hkey'))
  apply PathShape.directedLabels_injective
  -- two labels with one id are one label
  have hunique : Relator.LeftUnique fun label id => c.nodeTypes.idOf? label = some id := by
    intro label id label' hlabel hlabel'
    rw [Lexicon.idOf?_eq_some_iff] at hlabel hlabel'
    exact Option.some.inj (hlabel.symm.trans hlabel')
  exact List.left_unique_forall₂' hunique (forall₂_of_mapM hids) (forall₂_of_mapM hids')

/-! ## §2: What the lexicons tally -/

/-- The tokens of some contexts, the start of a context before its end. -/
def tokensOf (contexts : List PathContext) : List String :=
  contexts.flatMap fun context => [context.startToken, context.finishToken]

/-- The labels along the paths of some contexts, each with its direction. -/
def labelsOf (contexts : List PathContext) : List String :=
  contexts.flatMap fun context => context.shape.directedLabels

theorem forall₂_tokensOf {xs : List CodedContext} {given : List PathContext}
    (h : List.Forall₂ c.Codes xs given) :
    List.Forall₂ (fun id v => c.tokens.valueOf? id = some v) (tokenIds xs) (tokensOf given) := by
  refine List.rel_flatMap h fun x context hx => ?_
  exact .cons hx.start (.cons hx.finish .nil)

theorem forall₂_labelsOf {xs : List CodedContext} {given : List PathContext}
    {keys : List (List Nat)} (h : List.Forall₂ c.Codes xs given)
    (hkeys : List.Forall₂ (fun x ids => c.paths.valueOf? x.path = some (keyOfIds ids)) xs keys) :
    List.Forall₂ (fun id label => c.nodeTypes.valueOf? id = some label) keys.flatten
      (labelsOf given) := by
  induction h generalizing keys with
  | nil =>
    cases hkeys
    exact .nil
  | cons hx _ ih =>
    obtain _ | ⟨hkey, hkeys⟩ := hkeys
    -- the key of a path is made of the ids that stand for its labels
    obtain ⟨ids, hkey', hlabels⟩ := hx.path
    obtain rfl := keyOfIds_injective (Option.some.inj (hkey'.symm.trans hkey))
    rw [labelsOf, List.flatMap_cons, List.flatten_cons]
    exact List.rel_append hlabels (ih hkeys)

/-- After a run the lexicons tally the tokens, the labels and the shapes of the contexts. -/
theorem talliesBy_ofEntries (entries : List (String × List PathContext)) :
    let c := ofEntries entries
    let given := contextsOf entries
    c.tokens.TalliesBy c.tokens.idOf? (tokensOf given) ∧
      c.nodeTypes.TalliesBy c.nodeTypes.idOf? (labelsOf given) ∧
      c.paths.TalliesBy c.shapeId? (given.map PathContext.shape) := by
  intro c given
  obtain ⟨keys, hcounted⟩ := exists_counted_ofEntries entries
  have hcodes : List.Forall₂ c.Codes c.contexts given := forall₂_codes_ofEntries entries
  refine ⟨hcounted.tokens.talliesBy (forall₂_tokensOf hcodes),
    hcounted.nodeTypes.talliesBy (forall₂_labelsOf hcodes hcounted.keyed), ?_, ?_, ?_⟩
  · -- a path was observed under its key, and the shape finds the id of this key
    refine ⟨_, hcounted.paths, ?_⟩
    rw [List.forall₂_map_left_iff, List.forall₂_map_right_iff]
    exact hcodes.imp fun _ _ => Codes.shapeId?_eq
  · exact shapeId?_injective
  · intro shape id hid
    obtain ⟨ids, hkey, -⟩ := exists_key_of_shapeId? hid
    exact ⟨_, hkey⟩

/-- The order of the entries makes no difference to counts, nor to the ranks of what was counted
unequally often. -/
theorem countsAlike_ofEntries (h : entries.Perm entries') :
    let c := ofEntries entries
    let c' := ofEntries entries'
    c.tokens.CountsAlike c.tokens.idOf? c'.tokens c'.tokens.idOf? ∧
      c.nodeTypes.CountsAlike c.nodeTypes.idOf? c'.nodeTypes c'.nodeTypes.idOf? ∧
      c.paths.CountsAlike c.shapeId? c'.paths c'.shapeId? := by
  obtain ⟨htokens, hlabels, hpaths⟩ := talliesBy_ofEntries entries
  obtain ⟨htokens', hlabels', hpaths'⟩ := talliesBy_ofEntries entries'
  have hgiven : (contextsOf entries).Perm (contextsOf entries') := h.flatMap_right _
  exact ⟨htokens.countsAlike htokens' (hgiven.flatMap_right _),
    hlabels.countsAlike hlabels' (hgiven.flatMap_right _),
    hpaths.countsAlike hpaths' (hgiven.map _)⟩

/-! ## §3: What is stored, read back -/

/-- The context that a coded context stands for. -/
def contextOf? (c : Corpus) (x : CodedContext) : Option PathContext := do
  let startToken ← c.tokens.valueOf? x.start
  let labels ← c.directedLabelsOf? x.path
  let shape ← PathShape.ofDirectedLabels? labels
  let finishToken ← c.tokens.valueOf? x.finish
  return { startToken, shape, finishToken }

/-- The entry that a sample stands for. -/
def entryOf? (c : Corpus) (s : CodedSample) : Option (String × List PathContext) :=
  (s.contexts.mapM c.contextOf?).map (s.label, ·)

/-- The entries of a corpus, read back by its lexicons. -/
def entries? (c : Corpus) : Option (List (String × List PathContext)) :=
  c.samples.toList.mapM c.entryOf?

theorem Codes.contextOf?_eq (h : c.Codes x context) : c.contextOf? x = some context := by
  simp [contextOf?, h.start, h.finish, h.directedLabelsOf?_eq,
    PathShape.ofDirectedLabels?_directedLabels]

/-- A sample has the label of an entry and codes its contexts. -/
structure StandsFor (c : Corpus) (s : CodedSample) (entry : String × List PathContext) : Prop where
  label : s.label = entry.1
  contexts : List.Forall₂ c.Codes s.contexts entry.2

variable {s : CodedSample} {entry : String × List PathContext}

theorem StandsFor.mono (h : c.StandsFor s entry) (hgrows : c.Grows c') : c'.StandsFor s entry :=
  ⟨h.label, h.contexts.imp fun _ _ hx => hx.mono hgrows⟩

theorem StandsFor.entryOf?_eq (h : c.StandsFor s entry) : c.entryOf? s = some entry := by
  rw [entryOf?, mapM_eq_some (h.contexts.imp fun _ _ => Codes.contextOf?_eq), h.label]
  rfl

/-- Samples go on standing for their entries, and each new entry gets one that stands for it. -/
theorem forall₂_standsFor_addAll {given : List (String × List PathContext)}
    (h : List.Forall₂ c.StandsFor c.samples.toList given)
    (entries : List (String × List PathContext)) :
    List.Forall₂ (c.addAll entries).StandsFor (c.addAll entries).samples.toList
      (given ++ entries) := by
  induction entries generalizing c given with
  | nil => simpa [addAll] using h
  | cons entry entries ih =>
    obtain ⟨xs, c', hadd, hsamples, hgrows, hcodes⟩ := c.exists_add entry.1 entry.2
    -- the lexicons only grow, so no id of an earlier sample comes to stand for anything else
    have hstep : List.Forall₂ c'.StandsFor c'.samples.toList (given ++ [entry]) := by
      rw [hsamples, Array.toList_push]
      exact List.rel_append (h.imp fun _ _ hs => hs.mono hgrows) (.cons ⟨rfl, hcodes⟩ .nil)
    have hrest := ih hstep
    rw [List.append_assoc, List.singleton_append] at hrest
    rwa [addAll, List.foldl_cons, hadd, ← addAll]

theorem entries?_ofEntries (entries : List (String × List PathContext)) :
    (ofEntries entries).entries? = some entries := by
  apply mapM_eq_some
  have h : List.Forall₂ (ofEntries entries).StandsFor (ofEntries entries).samples.toList entries :=
    forall₂_standsFor_addAll (c := empty) .nil entries
  exact h.imp fun _ _ => StandsFor.entryOf?_eq

end Corpus

end PathCorpus
