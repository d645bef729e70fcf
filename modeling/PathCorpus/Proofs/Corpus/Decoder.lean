import PathCorpus.Corpus.Files
import PathCorpus.Extraction.Report
import PathCorpus.Proofs.Lexicon.Reader

/-!
# Reading a corpus back

The four texts of a corpus, written without limits on ranks, hold all that was coded. The decoder
here is one fixed function of these texts and knows nothing of the corpus they come from. It looks
ids up in the dictionaries by their digits: a token under its id, a path under its id, which gives
the key of the path, and under each id in the key a label with the direction it is passed in.

That the decoder gives back what was coded rests on one invariant of corpora, `Corpus.Stores`: the
ids of every coded context stand for its parts. Coding a context makes this so, and it stays so
because lexicons only grow.

## Main statements

- `PathShape.ofDirectedLabels?_directedLabels`: directions and order give the shape back.
- `Corpus.codes_code`, `Codes.mono`: what an id of a coded context stands for.
- `Corpus.Stores.add`: adding a sample keeps the invariant.
- `Corpus.Stores.decode?_eq`: the decoder on the texts of a corpus.
-/

namespace PathCorpus

/-! ## §1: The decoder -/

/-- A label that is passed upwards. -/
def upLabel? (s : String) : Option String :=
  match s.toList.reverse with
  | 'P' :: 'U' :: ' ' :: label => some (String.ofList label.reverse)
  | _ => none

/-- A label that is passed downwards. -/
def downLabel? (s : String) : Option String :=
  match s.toList.reverse with
  | 'N' :: 'W' :: 'O' :: 'D' :: ' ' :: label => some (String.ofList label.reverse)
  | _ => none

/-- The shape with the given labels and directions. The last label passed upwards is the top. -/
def PathShape.ofDirectedLabels? (labels : List String) : Option PathShape :=
  let climb := labels.filterMap upLabel?
  climb.getLast?.map fun top =>
    { upward := climb.dropLast, top, downward := labels.filterMap downLabel? }

/-- The dictionaries of a corpus. -/
structure Dictionaries where
  tokens : Dictionary
  nodeTypes : Dictionary
  paths : Dictionary

namespace Dictionaries

/-- The shape of a path with the given digits. -/
def readShape? (d : Dictionaries) (id : List Char) : Option PathShape := do
  let key ← d.paths.lookup id
  let labels ← (Text.cut ' ' key.toList).mapM fun id => d.nodeTypes.lookup id
  PathShape.ofDirectedLabels? labels

/-- The context of a field: start, path and end with commas between them. -/
def readContext? (d : Dictionaries) (field : List Char) : Option PathContext :=
  match Text.cut ',' field with
  | [start, path, finish] => do
    let startToken ← d.tokens.lookup start
    let shape ← d.readShape? path
    let finishToken ← d.tokens.lookup finish
    return { startToken, shape, finishToken }
  | _ => none

/-- The label and the contexts of a line. -/
def readLine? (d : Dictionaries) (line : List Char) : Option (String × List PathContext) :=
  match Text.cut ' ' line with
  | [] => none
  | label :: fields => (fields.mapM d.readContext?).map (String.ofList label, ·)

end Dictionaries

/-- Reads a corpus from its lines and its dictionaries. -/
def decode? (text tokens nodeTypes paths : String) : Option (List (String × List PathContext)) :=
  let d : Dictionaries :=
    { tokens := readDictionary tokens, nodeTypes := readDictionary nodeTypes
      paths := readDictionary paths }
  (Text.cut '\n' text.toList).mapM d.readLine?

/-- Look-ups that all succeed, one after another. -/
theorem mapM_eq_some {α β : Type} {f : α → Option β} {as : List α} {bs : List β}
    (h : List.Forall₂ (fun a b => f a = some b) as bs) : as.mapM f = some bs := by
  induction h with
  | nil => rfl
  | cons ha _ ih => simp [List.mapM_cons, ha, ih]

theorem forall₂_of_mapM {α β : Type} {f : α → Option β} {as : List α} {bs : List β}
    (h : as.mapM f = some bs) : List.Forall₂ (fun a b => f a = some b) as bs := by
  induction as generalizing bs with
  | nil =>
    obtain rfl : [] = bs := by simpa using h
    exact .nil
  | cons a as ih =>
    rw [List.mapM_cons] at h
    obtain ⟨b, hb, h⟩ := Option.bind_eq_some_iff.mp h
    obtain ⟨bs', hbs, h⟩ := Option.bind_eq_some_iff.mp h
    obtain rfl : b :: bs' = bs := by simpa using h
    exact .cons hb (ih hbs)

/-! ## §2: Shapes -/

theorem upLabel?_up (label : String) : upLabel? (label ++ " UP") = some label := by
  simp [upLabel?, String.toList_append]

theorem upLabel?_down (label : String) : upLabel? (label ++ " DOWN") = none := by
  simp [upLabel?, String.toList_append]

theorem downLabel?_up (label : String) : downLabel? (label ++ " UP") = none := by
  simp [downLabel?, String.toList_append]

theorem downLabel?_down (label : String) : downLabel? (label ++ " DOWN") = some label := by
  simp [downLabel?, String.toList_append]

/-- Whatever a label looks like, its last word is the direction. -/
theorem PathShape.ofDirectedLabels?_directedLabels (p : PathShape) :
    ofDirectedLabels? p.directedLabels = some p := by
  have hclimb : p.directedLabels.filterMap upLabel? = p.upward ++ [p.top] := by
    simp [directedLabels, List.filterMap_map, upLabel?_up, upLabel?_down]
  have hdown : p.directedLabels.filterMap downLabel? = p.downward := by
    simp [directedLabels, List.filterMap_map, downLabel?_up, downLabel?_down]
  simp [ofDirectedLabels?, hclimb, hdown]

/-! ## §3: What coded contexts stand for -/

namespace Corpus

/-- All three lexicons have grown. -/
structure Grows (c c' : Corpus) : Prop where
  tokens : c.tokens.Grows c'.tokens
  nodeTypes : c.nodeTypes.Grows c'.nodeTypes
  paths : c.paths.Grows c'.paths

theorem Grows.refl (c : Corpus) : c.Grows c := ⟨.refl _, .refl _, .refl _⟩

theorem Grows.trans {c₁ c₂ c₃ : Corpus} (h : c₁.Grows c₂) (h' : c₂.Grows c₃) : c₁.Grows c₃ :=
  ⟨h.tokens.trans h'.tokens, h.nodeTypes.trans h'.nodeTypes, h.paths.trans h'.paths⟩

/-- The ids of a coded context stand for the parts of the context. -/
structure Codes (c : Corpus) (x : CodedContext) (context : PathContext) : Prop where
  start : c.tokens.valueOf? x.start = some context.startToken
  finish : c.tokens.valueOf? x.finish = some context.finishToken
  path : ∃ ids, c.paths.valueOf? x.path = some (keyOfIds ids) ∧
    List.Forall₂ (fun id label => c.nodeTypes.valueOf? id = some label) ids
      context.shape.directedLabels

theorem Codes.mono {c c' : Corpus} {x : CodedContext} {context : PathContext}
    (h : c.Codes x context) (hgrows : c.Grows c') : c'.Codes x context := by
  obtain ⟨ids, hkey, hlabels⟩ := h.path
  exact ⟨hgrows.tokens.values h.start, hgrows.tokens.values h.finish, ids,
    hgrows.paths.values hkey, hlabels.imp fun _ _ => hgrows.nodeTypes.values⟩

theorem grows_code (c : Corpus) (context : PathContext) : c.Grows (c.code context).2 where
  tokens := (c.tokens.grows_observe _).trans (Lexicon.grows_observe _ _)
  nodeTypes := c.nodeTypes.grows_observeAll _
  paths := c.paths.grows_observe _

theorem codes_code (c : Corpus) (context : PathContext) :
    (c.code context).2.Codes (c.code context).1 context where
  -- the token at the end is observed after the one at the start
  start := (Lexicon.grows_observe _ _).values (c.tokens.valueOf?_observe _)
  finish := Lexicon.valueOf?_observe _ _
  path := ⟨_, Lexicon.valueOf?_observe _ _, c.nodeTypes.forall₂_observeAll _⟩

/-- Coding several contexts appends a coded one for each of them. -/
theorem exists_codeInto (coded : Array CodedContext) (c : Corpus) (contexts : List PathContext) :
    ∃ xs c', codeInto coded c contexts = (coded ++ xs, c') ∧ c.Grows c' ∧
      c'.samples = c.samples ∧ List.Forall₂ c'.Codes xs.toList contexts := by
  induction contexts generalizing coded c with
  | nil => exact ⟨#[], c, by simp [codeInto], .refl c, rfl, .nil⟩
  | cons context contexts ih =>
    obtain ⟨xs, c', hcode, hgrows, hsamples, hcodes⟩ :=
      ih (coded.push (c.code context).1) (c.code context).2
    have hgrows' := (c.grows_code context).trans hgrows
    refine ⟨#[(c.code context).1] ++ xs, c', ?_, hgrows', hsamples, ?_⟩
    · simp only [codeInto, hcode, ← Array.append_assoc, ← Array.push_eq_append]
    · -- the lexicons grow on while the other contexts are coded
      rw [Array.toList_append]
      exact .cons ((c.codes_code context).mono hgrows) hcodes

/-! ## §4: The invariant -/

/-- A stored sample has the label and codes the contexts of an entry. -/
structure CodesSample (c : Corpus) (s : CodedSample) (entry : String × List PathContext) :
    Prop where
  label : s.label = entry.1
  isLabel : isLabel entry.1 = true
  contexts : List.Forall₂ c.Codes s.contexts entry.2

/-- The corpus holds these entries, coded. -/
structure Stores (c : Corpus) (entries : List (String × List PathContext)) : Prop where
  tokenKind : c.tokens.kind = "token"
  nodeTypeKind : c.nodeTypes.kind = "node_type"
  pathKind : c.paths.kind = "path"
  samples : List.Forall₂ c.CodesSample c.samples.toList entries

theorem stores_empty : Corpus.empty.Stores [] := ⟨rfl, rfl, rfl, .nil⟩

theorem CodesSample.mono {c c' : Corpus} {s : CodedSample} {entry : String × List PathContext}
    (h : c.CodesSample s entry) (hgrows : c.Grows c') : c'.CodesSample s entry :=
  ⟨h.label, h.isLabel, h.contexts.imp fun _ _ hcodes => hcodes.mono hgrows⟩

theorem Stores.add {c : Corpus} {entries : List (String × List PathContext)} (h : c.Stores entries)
    {label : String} (hlabel : PathCorpus.isLabel label = true) (contexts : List PathContext) :
    (c.add label contexts).2.Stores (entries ++ [(label, contexts)]) := by
  obtain ⟨xs, c', hcode, hgrows, hsamples, hcodes⟩ := exists_codeInto #[] c contexts
  -- the corpus after the sample has the lexicons of the coding, and one sample more
  let after : Corpus := { c' with samples := c'.samples.push ⟨label, xs.toList⟩ }
  have hadd : (c.add label contexts).2 = after := by
    simp [Corpus.add, codeAll, hcode, after]
  have hafter : c'.Grows after := ⟨.refl _, .refl _, .refl _⟩
  have hlast : after.CodesSample ⟨label, xs.toList⟩ (label, contexts) :=
    ⟨rfl, hlabel, hcodes.imp fun _ _ hx => hx.mono hafter⟩
  have hbefore : List.Forall₂ after.CodesSample c.samples.toList entries :=
    h.samples.imp fun _ _ hs => hs.mono (hgrows.trans hafter)
  rw [hadd]
  refine ⟨hgrows.tokens.kind.trans h.tokenKind, hgrows.nodeTypes.kind.trans h.nodeTypeKind,
    hgrows.paths.kind.trans h.pathKind, ?_⟩
  rw [Array.toList_push, hsamples]
  exact List.rel_append hbefore (.cons hlast .nil)

end Corpus

/-! ## §5: Lines without limits -/

/-- A field without the space before it. -/
def CodedContext.fieldChars (x : CodedContext) : List Char :=
  [','].intercalate [digits x.start, digits x.path, digits x.finish]

theorem CodedContext.toList_field (x : CodedContext) : x.field.toList = ' ' :: x.fieldChars := by
  simp [field, fieldChars, digits, List.intercalate_cons_cons]

theorem CodedContext.cut_fieldChars (x : CodedContext) :
    Text.cut ',' x.fieldChars = [digits x.start, digits x.path, digits x.finish] := by
  apply Text.cut_intercalate
  simp [notMem_digits, digits_ne_nil]

/-- A field is made of digits and commas. -/
theorem CodedContext.notMem_fieldChars (x : CodedContext) {c : Char} (hdigit : c.isDigit = false)
    (hcomma : c ≠ ',') : c ∉ x.fieldChars := by
  simp [fieldChars, List.intercalate_cons_cons, notMem_digits hdigit, hcomma]

theorem CodedContext.fieldChars_ne_nil (x : CodedContext) : x.fieldChars ≠ [] := by
  simp [fieldChars, List.intercalate_cons_cons]

/-- The characters of a line with all of its contexts. -/
def CodedSample.lineChars (s : CodedSample) : List Char :=
  [' '].intercalate (s.label.toList :: s.contexts.map CodedContext.fieldChars)

private theorem intercalate_cons (sep : Char) (piece : List Char) (pieces : List (List Char)) :
    [sep].intercalate (piece :: pieces) = piece ++ pieces.flatMap (sep :: ·) := by
  induction pieces generalizing piece with
  | nil => simp
  | cons q pieces ih => rw [List.intercalate_cons_cons, ih, List.flatMap_cons]; simp

theorem CodedSample.toList_line {s : CodedSample} {keep : CodedContext → Bool}
    (hkeep : ∀ x ∈ s.contexts, keep x = true) : (s.line keep).toList = s.lineChars := by
  rw [line, lineChars, List.filter_eq_self.mpr hkeep, intercalate_cons, String.toList_append,
    String.toList_join, List.flatMap_map, List.flatMap_map]
  simp only [CodedContext.toList_field]

theorem exists_mem_of_forall₂ {α β : Type} {R : α → β → Prop} {as : List α} {bs : List β}
    (h : List.Forall₂ R as bs) {a : α} (ha : a ∈ as) : ∃ b ∈ bs, R a b := by
  induction h with
  | nil => simp at ha
  | @cons a' b _ _ hR _ ih =>
    rcases List.mem_cons.mp ha with rfl | ha
    · exact ⟨b, List.mem_cons_self, hR⟩
    · obtain ⟨b, hb, hR⟩ := ih ha
      exact ⟨b, List.mem_cons_of_mem _ hb, hR⟩

/-- A label is one word, so it holds neither a space nor a line feed. -/
theorem plain_of_isLabel {label : String} (h : isLabel label = true) :
    label.toList ≠ [] ∧ ' ' ∉ label.toList ∧ '\n' ∉ label.toList := by
  simp only [isLabel, Bool.and_eq_true, Bool.not_eq_true', List.any_eq_false] at h
  obtain ⟨hnonempty, hblank⟩ := h
  refine ⟨?_, fun hmem => hblank ' ' hmem (by decide), fun hmem => hblank '\n' hmem (by decide)⟩
  intro hnil
  simp_all

namespace Corpus

variable {c : Corpus} {x : CodedContext} {context : PathContext} {s : CodedSample}
  {entry : String × List PathContext} {entries : List (String × List PathContext)}

theorem CodesSample.cut_lineChars (h : c.CodesSample s entry) :
    Text.cut ' ' s.lineChars = s.label.toList :: s.contexts.map CodedContext.fieldChars := by
  obtain ⟨hnonempty, hspace, _⟩ := plain_of_isLabel (h.label ▸ h.isLabel)
  -- neither the label nor a field holds a space, and none of them is empty
  apply Text.cut_intercalate
  rw [List.forall_mem_cons]
  refine ⟨⟨hspace, hnonempty⟩, ?_⟩
  simp only [List.forall_mem_map]
  exact fun x _ => ⟨x.notMem_fieldChars (by decide) (by decide), x.fieldChars_ne_nil⟩

theorem CodesSample.newline_notMem_lineChars (h : c.CodesSample s entry) :
    '\n' ∉ s.lineChars := by
  obtain ⟨_, _, hfeed⟩ := plain_of_isLabel (h.label ▸ h.isLabel)
  rw [CodedSample.lineChars, intercalate_cons, List.mem_append, List.mem_flatMap]
  rintro (hlabel | ⟨field, hfield, hmem⟩)
  · exact hfeed hlabel
  · obtain ⟨x, _, rfl⟩ := List.mem_map.mp hfield
    rcases List.mem_cons.mp hmem with heq | hmem
    · exact absurd heq (by decide)
    · exact x.notMem_fieldChars (by decide) (by decide) hmem

/-- Every context of a stored sample is written. -/
theorem CodesSample.rankWithin (h : c.CodesSample s entry) : ∀ x ∈ s.contexts,
    (PathCorpus.rankWithin c.tokens.ranks .unlimited x.start &&
      PathCorpus.rankWithin c.tokens.ranks .unlimited x.finish &&
      PathCorpus.rankWithin c.paths.ranks .unlimited x.path) = true := by
  intro x hx
  obtain ⟨context, -, hcodes⟩ := exists_mem_of_forall₂ h.contexts hx
  obtain ⟨ids, hkey, _⟩ := hcodes.path
  simp [Lexicon.rankWithin_unlimited hcodes.start, Lexicon.rankWithin_unlimited hcodes.finish,
    Lexicon.rankWithin_unlimited hkey]

theorem Stores.cut_text (h : c.Stores entries) :
    Text.cut '\n' (c.text .unlimited).toList = c.samples.toList.map CodedSample.lineChars := by
  have htext : (c.text .unlimited).toList =
      (c.samples.toList.map CodedSample.lineChars).flatMap (· ++ ['\n']) := by
    rw [text, String.toList_join, lines, List.map_map, List.flatMap_map, List.flatMap_map]
    apply List.flatMap_congr
    intro s hs
    obtain ⟨entry, -, hentry⟩ := exists_mem_of_forall₂ h.samples hs
    simp only [Function.comp_apply, String.toList_append]
    exact congrArg (· ++ _) (CodedSample.toList_line hentry.rankWithin)
  rw [htext]
  apply Text.cut_flatMap_finished
  simp only [List.forall_mem_map]
  intro s hs
  obtain ⟨entry, -, hentry⟩ := exists_mem_of_forall₂ h.samples hs
  exact hentry.newline_notMem_lineChars

/-! ## §6: Decoding what is stored -/

/-- The dictionaries of a corpus, read back from what is written without limits. -/
def dictionaries (c : Corpus) : Dictionaries where
  tokens := readDictionary (c.tokens.dictionary .unlimited)
  nodeTypes := readDictionary (c.nodeTypes.dictionary .unlimited)
  paths := readDictionary (c.paths.dictionary .unlimited)

theorem Stores.lookup_tokens (h : c.Stores entries) {id : Nat} {v : String}
    (hid : c.tokens.valueOf? id = some v) : c.dictionaries.tokens.lookup (digits id) = some v :=
  Lexicon.lookup_readDictionary (by rw [h.tokenKind]; decide) hid

theorem Stores.lookup_nodeTypes (h : c.Stores entries) {id : Nat} {v : String}
    (hid : c.nodeTypes.valueOf? id = some v) :
    c.dictionaries.nodeTypes.lookup (digits id) = some v :=
  Lexicon.lookup_readDictionary (by rw [h.nodeTypeKind]; decide) hid

theorem Stores.lookup_paths (h : c.Stores entries) {id : Nat} {v : String}
    (hid : c.paths.valueOf? id = some v) : c.dictionaries.paths.lookup (digits id) = some v :=
  Lexicon.lookup_readDictionary (by rw [h.pathKind]; decide) hid

theorem cut_keyOfIds (ids : List Nat) :
    Text.cut ' ' (keyOfIds ids).toList = ids.map digits := by
  have hkey : (keyOfIds ids).toList = [' '].intercalate (ids.map digits) := by
    rw [keyOfIds, String.toList_intercalate, List.map_map]
    rfl
  rw [hkey]
  apply Text.cut_intercalate
  simp only [List.forall_mem_map]
  exact fun id _ => ⟨notMem_digits (by decide), digits_ne_nil id⟩

theorem Stores.readShape?_eq (h : c.Stores entries) (hcodes : c.Codes x context) :
    c.dictionaries.readShape? (digits x.path) = some context.shape := by
  obtain ⟨ids, hkey, hlabels⟩ := hcodes.path
  -- the key is cut into the digits of its ids, and each of these is looked up
  have hread : (ids.map digits).mapM (fun id => c.dictionaries.nodeTypes.lookup id) =
      some context.shape.directedLabels := by
    apply mapM_eq_some
    rw [List.forall₂_map_left_iff]
    exact hlabels.imp fun _ _ => h.lookup_nodeTypes
  simp [Dictionaries.readShape?, h.lookup_paths hkey, cut_keyOfIds, hread,
    PathShape.ofDirectedLabels?_directedLabels]

theorem Stores.readContext?_eq (h : c.Stores entries) (hcodes : c.Codes x context) :
    c.dictionaries.readContext? x.fieldChars = some context := by
  simp [Dictionaries.readContext?, x.cut_fieldChars, h.lookup_tokens hcodes.start,
    h.readShape?_eq hcodes, h.lookup_tokens hcodes.finish]

theorem Stores.readLine?_eq (h : c.Stores entries) (hs : c.CodesSample s entry) :
    c.dictionaries.readLine? s.lineChars = some entry := by
  have hfields : (s.contexts.map CodedContext.fieldChars).mapM c.dictionaries.readContext? =
      some entry.2 := by
    apply mapM_eq_some
    rw [List.forall₂_map_left_iff]
    exact hs.contexts.imp fun _ _ => h.readContext?_eq
  simp [Dictionaries.readLine?, hs.cut_lineChars, hfields, hs.label]

/-- **Decoding**: the texts of a corpus that stores some entries give these entries back. -/
theorem Stores.decode?_eq (h : c.Stores entries) :
    decode? (c.text .unlimited) (c.tokens.dictionary .unlimited)
      (c.nodeTypes.dictionary .unlimited) (c.paths.dictionary .unlimited) = some entries := by
  show (Text.cut '\n' (c.text .unlimited).toList).mapM c.dictionaries.readLine? = some entries
  rw [h.cut_text]
  apply mapM_eq_some
  rw [List.forall₂_map_left_iff]
  exact h.samples.imp fun _ _ => h.readLine?_eq

end Corpus

end PathCorpus
