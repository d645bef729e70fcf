import Std.Data.String.ToNat
import PathCorpus.Proofs.Corpus.Decoder

/-!
# What ids stand for over a whole run

A corpus that adds entries, each a label with some contexts, gives ids to tokens and to paths
along the way. Two tokens have the same id exactly if they are the same text, and two paths
exactly if they have the same shape, wherever in the run they were coded. Later entries do not
change what an id stands for: a token is the text of its id, and the key of a path, cut at its
spaces, gives the ids of the labels along it.

What a run keeps is shown for the coding of one context, `Corpus.code`, and carried over the whole
run by one induction, `Corpus.ofEntries_induction`.

## Main statements

- `Corpus.ofEntries_induction`: what the coding of a context keeps, a run keeps.
- `Corpus.Codes.directedLabelsOf?_eq`: the labels of a path, read back from its id.
- `Corpus.Codes.path_eq_iff`: path ids and shapes.
- `Corpus.faithful_ofEntries`: the ids of a run.
-/

namespace PathCorpus

/-- Directions and order determine the shape. -/
theorem PathShape.directedLabels_injective {p q : PathShape}
    (h : p.directedLabels = q.directedLabels) : p = q := by
  have hp := p.ofDirectedLabels?_directedLabels
  rw [h, q.ofDirectedLabels?_directedLabels] at hp
  exact (Option.some.inj hp).symm

/-! ## §1: Runs -/

/-- The contexts of some entries, in order. -/
def contextsOf (entries : List (String × List PathContext)) : List PathContext :=
  entries.flatMap Prod.snd

namespace Corpus

/-- Adds entries one after another. -/
def addAll (c : Corpus) (entries : List (String × List PathContext)) : Corpus :=
  entries.foldl (fun c entry => (c.add entry.1 entry.2).2) c

/-- The corpus of some entries. -/
def ofEntries (entries : List (String × List PathContext)) : Corpus := empty.addAll entries

/-- All coded contexts, in the order in which they are stored. -/
def contexts (c : Corpus) : List CodedContext := c.samples.toList.flatMap (·.contexts)

/-- The paths of a run, each by its id and its shape. -/
def pathOccurrences (c : Corpus) (entries : List (String × List PathContext)) :
    List (Nat × PathShape) :=
  (c.contexts.zip (contextsOf entries)).map fun (x, context) => (x.path, context.shape)

/-- The tokens of a run, each by its id and its text, the start of a context before its end. -/
def tokenOccurrences (c : Corpus) (entries : List (String × List PathContext)) :
    List (Nat × String) :=
  (c.contexts.zip (contextsOf entries)).flatMap fun (x, context) =>
    [(x.start, context.startToken), (x.finish, context.finishToken)]

theorem ofEntries_append (entries later : List (String × List PathContext)) :
    ofEntries (entries ++ later) = (ofEntries entries).addAll later :=
  List.foldl_append

/-! ## §2: What a run keeps -/

/-- Adding an entry appends a sample: its label, and a coded context for each of its contexts. -/
theorem exists_add (c : Corpus) (label : String) (contexts : List PathContext) :
    ∃ xs c', c.add label contexts = (⟨label, xs⟩, c') ∧ c'.samples = c.samples.push ⟨label, xs⟩ ∧
      c.Grows c' ∧ List.Forall₂ c'.Codes xs contexts := by
  obtain ⟨xs, c', hcode, hgrows, hsamples, hcodes⟩ := exists_codeInto #[] c contexts
  -- the new sample is no part of the lexicons
  have hafter : c'.Grows { c' with samples := c'.samples.push ⟨label, xs.toList⟩ } :=
    ⟨.refl _, .refl _, .refl _⟩
  refine ⟨xs.toList, _, ?_, ?_, hgrows.trans hafter, hcodes.imp fun _ _ hx => hx.mono hafter⟩
  · simp [add, codeAll, hcode]
  · rw [hsamples]

theorem grows_addAll (c : Corpus) (entries : List (String × List PathContext)) :
    c.Grows (c.addAll entries) := by
  induction entries generalizing c with
  | nil => exact .refl c
  | cons entry entries ih =>
    obtain ⟨xs, c', hadd, _, hgrows, _⟩ := c.exists_add entry.1 entry.2
    rw [addAll, List.foldl_cons, hadd]
    exact hgrows.trans (ih c')

theorem prefix_samples_addAll (c : Corpus) (entries : List (String × List PathContext)) :
    c.samples.toList <+: (c.addAll entries).samples.toList := by
  induction entries generalizing c with
  | nil => exact List.prefix_refl _
  | cons entry entries ih =>
    obtain ⟨xs, c', hadd, hsamples, _⟩ := c.exists_add entry.1 entry.2
    rw [addAll, List.foldl_cons, hadd]
    refine List.IsPrefix.trans ?_ (ih c')
    rw [hsamples, Array.toList_push]
    exact List.prefix_append _ _

theorem map_samples_addAll (c : Corpus) (entries : List (String × List PathContext)) :
    ((c.addAll entries).samples.toList.map fun s => (s.label, s.contexts.length)) =
      (c.samples.toList.map fun s => (s.label, s.contexts.length)) ++
        entries.map fun entry => (entry.1, entry.2.length) := by
  induction entries generalizing c with
  | nil => simp [addAll]
  | cons entry entries ih =>
    obtain ⟨xs, c', hadd, hsamples, _, hcodes⟩ := c.exists_add entry.1 entry.2
    rw [addAll, List.foldl_cons, hadd, ← addAll, ih, hsamples]
    simp [hcodes.length_eq]

section Induction

variable {R : Corpus → List CodedContext → List PathContext → Prop}
  (hcode : ∀ {c xs given} (context : PathContext), R c xs given →
    R (c.code context).2 (xs ++ [(c.code context).1]) (given ++ [context]))
  (hsamples : ∀ {c xs given} (samples : Array CodedSample), R c xs given →
    R { c with samples } xs given)

include hcode

theorem codeInto_induction {c : Corpus} {xs : List CodedContext} {given : List PathContext}
    (h : R c xs given) (coded : Array CodedContext) (contexts : List PathContext) :
    ∃ ys c', codeInto coded c contexts = (coded ++ ys, c') ∧ c'.samples = c.samples ∧
      R c' (xs ++ ys.toList) (given ++ contexts) := by
  induction contexts generalizing coded c xs given with
  | nil => exact ⟨#[], c, by simp [codeInto], rfl, by simpa using h⟩
  | cons context contexts ih =>
    -- the other contexts are coded by the corpus that the first one leaves
    obtain ⟨ys, c', heq, hkept, hR⟩ := ih (hcode context h) (coded.push (c.code context).1)
    refine ⟨#[(c.code context).1] ++ ys, c', ?_, hkept, ?_⟩
    · simp only [codeInto, heq, ← Array.append_assoc, ← Array.push_eq_append]
    · simpa using hR

include hsamples

theorem add_induction {c : Corpus} {given : List PathContext} (h : R c c.contexts given)
    (label : String) (contexts : List PathContext) :
    R (c.add label contexts).2 (c.add label contexts).2.contexts (given ++ contexts) := by
  obtain ⟨ys, c', heq, hkept, hR⟩ := codeInto_induction hcode h #[] contexts
  have hadd : (c.add label contexts).2 =
      { c' with samples := c'.samples.push ⟨label, ys.toList⟩ } := by
    simp [add, codeAll, heq]
  have hcontexts : (c.add label contexts).2.contexts = c.contexts ++ ys.toList := by
    simp [hadd, Corpus.contexts, hkept]
  rw [hcontexts, hadd]
  exact hsamples _ hR

/-- A relation between a corpus, the coded contexts and the contexts that they were made of holds
after a run if the coding of each context keeps it and if it does not depend on the samples. -/
theorem addAll_induction {c : Corpus} {given : List PathContext} (h : R c c.contexts given)
    (entries : List (String × List PathContext)) :
    R (c.addAll entries) (c.addAll entries).contexts (given ++ contextsOf entries) := by
  induction entries generalizing c given with
  | nil => simpa [contextsOf, addAll] using h
  | cons entry entries ih =>
    have hstep := ih (add_induction hcode hsamples h entry.1 entry.2)
    rw [List.append_assoc] at hstep
    exact hstep

theorem ofEntries_induction (h : R empty [] []) (entries : List (String × List PathContext)) :
    R (ofEntries entries) (ofEntries entries).contexts (contextsOf entries) := by
  have hempty : R empty empty.contexts [] := h
  exact addAll_induction hcode hsamples hempty entries

end Induction

/-- Every coded context of a run stands for the context that it was made of. -/
theorem forall₂_codes_ofEntries (entries : List (String × List PathContext)) :
    List.Forall₂ (ofEntries entries).Codes (ofEntries entries).contexts (contextsOf entries) := by
  refine ofEntries_induction (R := fun c xs given => List.Forall₂ c.Codes xs given) ?_ ?_
    .nil entries
  · intro c xs given context hcodes
    have hold := hcodes.imp fun _ _ hx => hx.mono (c.grows_code context)
    exact List.rel_append hold (.cons (c.codes_code context) .nil)
  · intro c xs given samples hcodes
    have hgrows : c.Grows { c with samples } := ⟨.refl _, .refl _, .refl _⟩
    exact hcodes.imp fun _ _ hx => hx.mono hgrows

/-! ## §3: Reading ids back -/

/-- The ids that make up a key: the numbers between its spaces. -/
def readKey? (key : String) : Option (List Nat) :=
  (Text.cut ' ' key.toList).mapM fun part => (String.ofList part).toNat?

/-- The ids of the labels along a path. -/
def labelIdsOf? (c : Corpus) (path : Nat) : Option (List Nat) :=
  (c.paths.valueOf? path).bind readKey?

/-- The labels along a path, each with its direction. -/
def directedLabelsOf? (c : Corpus) (path : Nat) : Option (List String) :=
  (c.labelIdsOf? path).bind fun ids => ids.mapM c.nodeTypes.valueOf?

theorem readKey?_keyOfIds (ids : List Nat) : readKey? (keyOfIds ids) = some ids := by
  rw [readKey?, cut_keyOfIds]
  apply mapM_eq_some
  rw [List.forall₂_map_left_iff, List.forall₂_same]
  intro id _
  rw [digits, String.ofList_toList]
  exact Nat.toNat?_repr id

variable {c : Corpus} {x y : CodedContext} {context context' : PathContext}

theorem labelIdsOf?_eq {path : Nat} {ids : List Nat}
    (h : c.paths.valueOf? path = some (keyOfIds ids)) : c.labelIdsOf? path = some ids := by
  rw [labelIdsOf?, h, Option.bind_some, readKey?_keyOfIds]

theorem Codes.directedLabelsOf?_eq (h : c.Codes x context) :
    c.directedLabelsOf? x.path = some context.shape.directedLabels := by
  obtain ⟨ids, hkey, hlabels⟩ := h.path
  rw [directedLabelsOf?, labelIdsOf?_eq hkey, Option.bind_some, mapM_eq_some hlabels]

/-- The same path id means the same shape, and the other way round. -/
theorem Codes.path_eq_iff (h : c.Codes x context) (h' : c.Codes y context') :
    x.path = y.path ↔ context.shape = context'.shape := by
  constructor
  · intro hpath
    have hread := h.directedLabelsOf?_eq
    rw [hpath, h'.directedLabelsOf?_eq, Option.some.injEq] at hread
    exact PathShape.directedLabels_injective hread.symm
  · intro hshape
    obtain ⟨ids, hkey, hlabels⟩ := h.path
    obtain ⟨ids', hkey', hlabels'⟩ := h'.path
    rw [hshape] at hlabels
    -- equal labels have equal ids, so the keys are the same text
    have hunique : Relator.LeftUnique fun id label => c.nodeTypes.valueOf? id = some label :=
      fun _ _ _ => Lexicon.valueOf?_injective
    have hids : ids = ids' := List.left_unique_forall₂' hunique hlabels hlabels'
    rw [hids] at hkey
    exact Lexicon.valueOf?_injective hkey hkey'

/-! ## §4: The ids of a run -/

/-- Ids and what they were given for: two ids are the same exactly if they are for the same. -/
def Faithful {α : Type} (pairs : List (Nat × α)) : Prop :=
  ∀ p ∈ pairs, ∀ q ∈ pairs, p.1 = q.1 ↔ p.2 = q.2

theorem codes_of_mem_zip {entries : List (String × List PathContext)}
    (h : (x, context) ∈ (ofEntries entries).contexts.zip (contextsOf entries)) :
    (ofEntries entries).Codes x context :=
  List.forall₂_zip (forall₂_codes_ofEntries entries) h

/-- **Ids are faithful**: after a run each entry has its sample, with a coded context for each
of its contexts. Two paths of the run have the same id exactly if they have the same shape, and
two tokens exactly if they are the same text. After any later entries the samples are still
there, the id of a token gives the token, and the id of a path gives the labels along it. -/
theorem faithful_ofEntries (entries later : List (String × List PathContext)) :
    let c := ofEntries entries
    let c' := ofEntries (entries ++ later)
    (c.samples.toList.map fun s => (s.label, s.contexts.length)) =
        (entries.map fun entry => (entry.1, entry.2.length)) ∧
      c.samples.toList <+: c'.samples.toList ∧
      Faithful (c.pathOccurrences entries) ∧ Faithful (c.tokenOccurrences entries) ∧
      (∀ p ∈ c.tokenOccurrences entries, c'.tokens.valueOf? p.1 = some p.2) ∧
      ∀ p ∈ c.pathOccurrences entries, c'.directedLabelsOf? p.1 = some p.2.directedLabels := by
  intro c c'
  have hgrows : c.Grows c' := by
    simp only [c', ofEntries_append]
    exact c.grows_addAll later
  have htokens : ∀ p ∈ c.tokenOccurrences entries, c.tokens.valueOf? p.1 = some p.2 := by
    simp only [tokenOccurrences, List.forall_mem_flatMap]
    rintro ⟨x, context⟩ hzip
    have hcodes := codes_of_mem_zip hzip
    simpa using ⟨hcodes.start, hcodes.finish⟩
  refine ⟨?_, ?_, ?_, ?_, fun p hp => hgrows.tokens.values (htokens p hp), ?_⟩
  case refine_1 => exact empty.map_samples_addAll entries
  case refine_2 =>
    simp only [c', ofEntries_append]
    exact c.prefix_samples_addAll later
  case refine_3 =>
    simp only [Faithful, pathOccurrences, List.forall_mem_map]
    rintro ⟨x, context⟩ hx ⟨y, context'⟩ hy
    exact (codes_of_mem_zip hx).path_eq_iff (codes_of_mem_zip hy)
  case refine_4 =>
    -- an id has one text, and a text one id
    intro p hp q hq
    constructor
    · intro hid
      have hvalue := htokens p hp
      rw [hid, htokens q hq] at hvalue
      exact (Option.some.inj hvalue).symm
    · intro hvalue
      have hid := htokens p hp
      rw [hvalue] at hid
      exact Lexicon.valueOf?_injective hid (htokens q hq)
  case refine_5 =>
    simp only [pathOccurrences, List.forall_mem_map]
    rintro ⟨x, context⟩ hx
    exact ((codes_of_mem_zip hx).mono hgrows).directedLabelsOf?_eq

/-- Two paths with the same words along them, in labels that end in a direction, and
a sample without contexts. -/
theorem faithful_ofEntries_lookalikes :
    let climb : PathShape := ⟨["A UP"], "R DOWN", []⟩
    let descent : PathShape := ⟨[], "A UP", ["R DOWN"]⟩
    let entries := [("x", [⟨"t", climb, "t"⟩, ⟨"u v", descent, "t"⟩]), ("y", [])]
    let later := [("z", [⟨"u v", climb, "w"⟩])]
    let c := ofEntries (entries ++ later)
    (ofEntries entries).contexts = [⟨1, 1, 1⟩, ⟨2, 2, 1⟩] ∧
      c.tokens.valueOf? 2 = some "u v" ∧
      c.directedLabelsOf? 2 = some ["A UP UP", "R DOWN DOWN"] := by
  intro climb descent entries later c
  have hcontexts : (ofEntries entries).contexts = [⟨1, 1, 1⟩, ⟨2, 2, 1⟩] := by decide +kernel
  obtain ⟨_, _, _, _, htokens, hpaths⟩ := faithful_ofEntries entries later
  refine ⟨hcontexts, htokens (2, "u v") ?_, hpaths (2, descent) ?_⟩
  · rw [tokenOccurrences, hcontexts]
    decide
  · rw [pathOccurrences, hcontexts]
    decide

end Corpus

end PathCorpus
