import PathCorpus.Proofs.Corpus.Coding
import PathCorpus.Proofs.Extraction.Run

/-!
# The report accounts for every unit

A call offers units: one tree, one text, or the lines of a batch. Each of them is stored or
skipped. The report counts the first and lists the places of the others, so the places that are
not listed are those of the stored samples, in order. What stands there is what the unit gave:
its label, and as many contexts as the limit lets through of the admissible paths of its tree. A
call for one unit answers with their number.

Trees and texts, batches in turn and all at once come down to two steps, `Extraction.reject` and
`Extraction.count`. What these keep, `Extraction.Accounts`, every call keeps and with it every run.

## Main statements

- `Extraction.Accounts.reject`, `Extraction.Accounts.count`: one unit more, skipped or stored.
- `Extraction.Accounts.perform`: one call more.
- `Extraction.accounts_run`: the report after a run.
-/

namespace PathCorpus

/-! ## §1: Units -/

/-- The units of a call in order. A text or a line that gives no labelled tree is a unit too. -/
def Offer.units : Offer → List (Option Sample)
  | .tree label t => [some { label, tree := t }]
  | .text label s => [(SExpr.parseArena s).toOption.map fun t => { label, tree := t }]
  | .batch b => b.samples.map Except.toOption

/-- A unit of a run, with the answer if the unit had a call of its own. -/
structure Turn where
  sample? : Option Sample
  answer? : Option (Except Fault Nat)

namespace Extraction

/-- The answer of a call. Going through a batch gives none. -/
def answer? (e : Extraction) : Offer → Option (Except Fault Nat)
  | .tree label t => some (e.offer label t).1
  | .text label s => some (e.offerText label s).1
  | .batch _ => none

/-- The units of several calls in order, each with its answer. -/
def turns (e : Extraction) : List Offer → List Turn
  | [] => []
  | offer :: offers =>
    offer.units.map (fun unit => ⟨unit, e.answer? offer⟩) ++ (e.perform offer).turns offers

theorem map_sample?_turns (e : Extraction) (offers : List Offer) :
    (e.turns offers).map Turn.sample? = offers.flatMap Offer.units := by
  induction offers generalizing e with
  | nil => rfl
  | cons offer offers ih => simp [turns, ih, Function.comp_def]

/-! ## §2: Places -/

/-- The places of the skipped units, in the order of the report. -/
def skippedPlaces (e : Extraction) : List Nat := e.report.skipped.toList.map (·.index)

/-- The places of the units offered that the report does not list as skipped. -/
def keptPlaces (e : Extraction) : List Nat :=
  (List.range e.offered).filter fun place => decide (place ∉ e.skippedPlaces)

variable {e : Extraction}

theorem skippedPlaces_reject (e : Extraction) (label? : Option String) (fault : Fault) :
    (e.reject label? fault).skippedPlaces = e.skippedPlaces ++ [e.offered] := by
  simp [skippedPlaces, Extraction.reject]

theorem keptPlaces_reject (e : Extraction) (label? : Option String) (fault : Fault) :
    (e.reject label? fault).keptPlaces = e.keptPlaces := by
  -- the new place is listed, and no place before it is
  have hold : ∀ place ∈ List.range e.offered,
      decide (place ∉ e.skippedPlaces ++ [e.offered]) = decide (place ∉ e.skippedPlaces) := by
    intro place hplace
    have hne : place ≠ e.offered := Nat.ne_of_lt (List.mem_range.mp hplace)
    simp [hne]
  rw [keptPlaces, skippedPlaces_reject]
  simp only [Extraction.reject, List.range_succ, List.filter_append]
  rw [List.filter_congr hold]
  simp [keptPlaces]

theorem keptPlaces_count (hbelow : ∀ place ∈ e.skippedPlaces, place < e.offered)
    (added : CodedSample × Corpus) :
    (e.count added).2.keptPlaces = e.keptPlaces ++ [e.offered] := by
  have hnew : e.offered ∉ e.skippedPlaces := fun hmem => Nat.lt_irrefl _ (hbelow _ hmem)
  show (List.range (e.offered + 1)).filter (fun place => decide (place ∉ e.skippedPlaces)) = _
  rw [List.range_succ, List.filter_append]
  simp [hnew, keptPlaces]

/-! ## §3: What is stored for a unit -/

/-- The stored sample is that of a unit with a labelled tree: it has the label of the unit,
which is one word, and codes the contexts of the first admissible paths of the tree, as many
as the limit lets through. If the unit had a call of its own, the call answered with their
number. -/
structure StoresUnit (config : Config) (valid : config.Valid) (c : Corpus) (stored : CodedSample)
    (turn : Turn) (s : Sample) : Prop where
  sample? : turn.sample? = some s
  label : stored.label = s.label
  label_ne_empty : s.label ≠ ""
  label_not_blank : ∀ ch ∈ s.label.toList, Text.isBlank ch = false
  check : s.tree.check = .ok ()
  length : stored.contexts.length =
    config.maxPathContexts.cap (s.tree.pathsWithin (config.bounds valid)).length
  contexts : ∃ contexts, s.tree.contextsAlong? (config.maxPathContexts.take
      (s.tree.pathsWithin (config.bounds valid))) = some contexts ∧
    List.Forall₂ c.Codes stored.contexts contexts
  answer : ∀ answer ∈ turn.answer?, answer = .ok stored.contexts.length

variable {config : Config} {valid : config.Valid} {c : Corpus} {stored : CodedSample} {turn : Turn}
  {s : Sample} {turns : List Turn}

theorem StoresUnit.mono (h : StoresUnit config valid c stored turn s) {c' : Corpus}
    (hgrows : c.Grows c') : StoresUnit config valid c' stored turn s := by
  obtain ⟨contexts, hcontexts, hcodes⟩ := h.contexts
  exact { h with contexts := ⟨contexts, hcontexts, hcodes.imp fun _ _ hx => hx.mono hgrows⟩ }

private theorem length_contextsAlong? {t : Arena} {paths : List LeafPath}
    {contexts : List PathContext} (h : t.contextsAlong? paths = some contexts) :
    contexts.length = paths.length := by
  induction paths generalizing contexts with
  | nil =>
    obtain rfl : [] = contexts := Option.some.inj h
    rfl
  | cons p paths ih =>
    rw [Arena.contextsAlong?, List.mapM_cons] at h
    obtain ⟨context, _, hrest⟩ := Option.bind_eq_some_iff.mp h
    obtain ⟨more, hmore, hcons⟩ := Option.bind_eq_some_iff.mp hrest
    obtain rfl : context :: more = contexts := Option.some.inj hcons
    rw [List.length_cons, List.length_cons, ih hmore]

/-- What is added for an accepted sample is what its unit asks for. -/
theorem storesUnit_of_isAccepted (hs : s.IsAccepted) {contexts : List PathContext}
    (hentry : s.labelledContexts? config valid = some (s.label, contexts)) {xs : List CodedContext}
    (hcodes : List.Forall₂ c.Codes xs contexts) {answer? : Option (Except Fault Nat)}
    (hanswer : ∀ answer ∈ answer?, answer = .ok contexts.length) :
    StoresUnit config valid c ⟨s.label, xs⟩ ⟨some s, answer?⟩ s := by
  obtain ⟨hlabel, hcheck⟩ := hs
  have hpaths : s.tree.contextsAlong? (config.maxPathContexts.take
      (s.tree.pathsWithin (config.bounds valid))) = some contexts := by
    rw [Sample.labelledContexts?_eq valid hcheck, Option.map_eq_some_iff] at hentry
    obtain ⟨found, hfound, heq⟩ := hentry
    obtain rfl : found = contexts := congrArg Prod.snd heq
    exact hfound
  have hlength : xs.length =
      config.maxPathContexts.cap (s.tree.pathsWithin (config.bounds valid)).length := by
    rw [hcodes.length_eq, length_contextsAlong? hpaths, Limit.length_take]
  simp only [isLabel, Bool.and_eq_true, Bool.not_eq_true', List.any_eq_false] at hlabel
  refine ⟨rfl, rfl, ?_, ?_, hcheck, hlength, ⟨contexts, hpaths, hcodes⟩, ?_⟩
  case refine_1 =>
    intro hempty
    simp [hempty] at hlabel
  case refine_2 => simpa using hlabel.2
  case refine_3 =>
    rw [hcodes.length_eq]
    exact hanswer

/-! ## §4: What every step keeps -/

/-- The report accounts for the units of some turns. -/
structure Accounts (e : Extraction) (config : Config) (valid : config.Valid) (turns : List Turn) :
    Prop where
  config_eq : e.config = config
  offered : e.offered = turns.length
  processed : e.report.processed = e.corpus.samples.size
  empty : e.report.empty = e.corpus.samples.toList.countP fun stored => stored.contexts.isEmpty
  total : e.report.processed + e.report.skipped.size = turns.length
  increasing : e.skippedPlaces.Pairwise (· < ·)
  below : ∀ place ∈ e.skippedPlaces, place < turns.length
  /-- The `k`-th stored sample belongs to the `k`-th place that is not listed as skipped. -/
  stored : List.Forall₂ (fun stored place => ∃ turn s, turns[place]? = some turn ∧
    StoresUnit config valid e.corpus stored turn s) e.corpus.samples.toList e.keptPlaces

theorem accounts_new (valid : config.Valid) :
    Extraction.Accounts { config, valid } config valid [] where
  config_eq := rfl
  offered := rfl
  processed := rfl
  empty := rfl
  total := rfl
  increasing := .nil
  below := by simp [skippedPlaces]
  stored := .nil

/-- What was stored before stays in its place. -/
theorem Accounts.stored_mono (h : e.Accounts config valid turns) {c : Corpus}
    (hgrows : e.corpus.Grows c) (turn : Turn) :
    List.Forall₂ (fun stored place => ∃ turn' s, (turns ++ [turn])[place]? = some turn' ∧
      StoresUnit config valid c stored turn' s) e.corpus.samples.toList e.keptPlaces := by
  refine h.stored.imp fun stored place hplace => ?_
  obtain ⟨turn', s, hturn, hstores⟩ := hplace
  have hlt : place < turns.length := (List.getElem?_eq_some_iff.mp hturn).1
  exact ⟨turn', s, by rw [List.getElem?_append_left hlt, hturn], hstores.mono hgrows⟩

/-- A rejected unit is the last that is listed, and its place is left out of those kept. -/
theorem Accounts.reject (h : e.Accounts config valid turns) (label? : Option String) (fault : Fault)
    (turn : Turn) : (e.reject label? fault).Accounts config valid (turns ++ [turn]) where
  config_eq := h.config_eq
  offered := by simp [Extraction.reject, h.offered]
  processed := h.processed
  empty := h.empty
  total := by simp [Extraction.reject, ← h.total, Nat.add_assoc]
  increasing := by
    have hlast : ∀ place ∈ e.skippedPlaces, place < e.offered := h.offered ▸ h.below
    rw [skippedPlaces_reject]
    simpa [List.pairwise_append, h.increasing] using hlast
  below := by
    rw [skippedPlaces_reject, List.length_append]
    intro place hplace
    rcases List.mem_append.mp hplace with hold | hnew
    · exact Nat.lt_add_right _ (h.below place hold)
    · rw [List.mem_singleton.mp hnew, h.offered]
      exact Nat.lt_succ_self _
  stored := by
    rw [keptPlaces_reject]
    exact h.stored_mono (.refl _) turn

/-- A stored unit comes after all units before it, in the corpus and among the places kept. -/
theorem Accounts.count (h : e.Accounts config valid turns)
    (hsamples : c.samples = e.corpus.samples.push stored) (hgrows : e.corpus.Grows c)
    (hstores : StoresUnit config valid c stored turn s) :
    (e.count (stored, c)).2.Accounts config valid (turns ++ [turn]) where
  config_eq := h.config_eq
  offered := by simp [Extraction.count, h.offered]
  processed := by simp [Extraction.count, h.processed, hsamples]
  empty := by
    rw [Extraction.count, hsamples, Array.toList_push, List.countP_append, ← h.empty]
    by_cases hempty : stored.contexts = [] <;> simp [hempty]
  total := by
    rw [List.length_append, ← h.total]
    exact Nat.add_right_comm _ 1 _
  increasing := h.increasing
  below place hplace := by
    rw [List.length_append]
    exact Nat.lt_add_right _ (h.below place hplace)
  stored := by
    rw [keptPlaces_count (h.offered ▸ h.below), Extraction.count, hsamples, Array.toList_push]
    refine List.rel_append (h.stored_mono hgrows turn) (.cons ⟨turn, s, ?_, hstores⟩ .nil)
    rw [h.offered, List.getElem?_concat_length]

/-! ## §5: Calls and runs -/

theorem Accounts.offer (h : e.Accounts config valid turns) (s : Sample)
    {answer? : Option (Except Fault Nat)}
    (hanswer : ∀ answer ∈ answer?, answer = (e.offer s.label s.tree).1) :
    (e.offer s.label s.tree).2.Accounts config valid (turns ++ [⟨some s, answer?⟩]) := by
  obtain rfl := h.config_eq
  by_cases haccepted : s.IsAccepted
  · obtain ⟨search, hsearch, hentry⟩ := Sample.exists_entry e.valid haccepted
    let contexts := search.contextsUpTo e.config.maxPathContexts
    obtain ⟨xs, c, hadd, hsamples, hgrows, hcodes⟩ := e.corpus.exists_add s.label contexts
    -- the call answers with the number of coded contexts, which is that of the contexts found
    have hoffer : e.offer s.label s.tree = (.ok xs.length, (e.count (⟨s.label, xs⟩, c)).2) := by
      simp only [Extraction.offer, hsearch, keepFound_eq_keep, Extraction.keep, hadd, contexts]
      rfl
    rw [hoffer] at hanswer ⊢
    rw [hcodes.length_eq] at hanswer
    exact h.count hsamples hgrows (storesUnit_of_isAccepted haccepted hentry hcodes hanswer)
  · obtain ⟨fault, hfault⟩ := exists_fault_of_not_isAccepted e.valid haccepted
    have hreject : (e.offer s.label s.tree).2 = e.reject (some s.label) fault := by
      simp only [Extraction.offer, hfault]
    rw [hreject]
    exact h.reject _ _ _

theorem Accounts.offerAll (h : e.Accounts config valid turns)
    (samples : List (Except LineFault Sample)) :
    (e.offerAll samples).Accounts config valid
      (turns ++ samples.map fun sample => ⟨sample.toOption, none⟩) := by
  induction samples generalizing e turns with
  | nil => simpa [Extraction.offerAll] using h
  | cons sample samples ih =>
    have hstep : (e.offerRead sample).Accounts config valid
        (turns ++ [⟨sample.toOption, none⟩]) := by
      cases sample with
      | ok s => exact h.offer s (by simp)
      | error fault => exact h.reject _ _ _
    have hrest := ih hstep
    rw [List.append_assoc] at hrest
    exact hrest

theorem Accounts.perform (h : e.Accounts config valid turns) (offer : Offer) :
    (e.perform offer).Accounts config valid
      (turns ++ offer.units.map fun unit => ⟨unit, e.answer? offer⟩) := by
  cases offer with
  | tree label t => exact h.offer ⟨label, t⟩ (fun _ hanswer => (Option.some.inj hanswer).symm)
  | text label s =>
    simp only [Extraction.perform, offerText, Offer.units, answer?]
    cases SExpr.parseArena s with
    | ok t => exact h.offer ⟨label, t⟩ (fun _ hanswer => (Option.some.inj hanswer).symm)
    | error refusal => exact h.reject _ _ _
  | batch b =>
    simp only [Extraction.perform, offerBatch_eq_offerAll, Offer.units, answer?, List.map_map]
    exact h.offerAll b.samples

theorem Accounts.run (h : e.Accounts config valid turns) (offers : List Offer) :
    (e.run offers).Accounts config valid (turns ++ e.turns offers) := by
  induction offers generalizing e turns with
  | nil => simpa [Extraction.run, Extraction.turns] using h
  | cons offer offers ih =>
    rw [Extraction.turns, ← List.append_assoc]
    exact ih (h.perform offer)

/-- **The report accounts for every unit** of a run: as many units were stored as the corpus has
samples, those without contexts are counted, and all others are listed as skipped by their
places, in order. The remaining places are those of the stored samples, in order, and each
sample is what its unit asks for. -/
theorem accounts_run (config : Config) (valid : config.Valid) (offers : List Offer) :
    ∃ e, Extraction.new config = .ok e ∧
      (e.turns offers).map Turn.sample? = offers.flatMap Offer.units ∧
      (e.run offers).Accounts config valid (e.turns offers) :=
  ⟨_, new_eq valid, map_sample?_turns _ offers, (accounts_new valid).run offers⟩

/-- A text that does not parse, a label of two words and a line without a tab between two trees. -/
theorem accounts_run_mixed :
    Config.standard.Valid ∧ ∃ e, Extraction.new .standard = .ok e ∧
      let t := Edit.build [.addNode "R" none, .addChild 0 "A" (some "a"),
        .addChild 0 "B" (some "b")]
      let after := e.run [.text "x" "(", .tree "no label" t, .tree "x" t,
        .batch (.atOnce [.error (.missingTab 1), .ok ⟨"y", t⟩])]
      after.skippedPlaces = [0, 1, 3] ∧ after.keptPlaces = [2, 4] ∧ after.report.processed = 2 := by
  let t := Edit.build [.addNode "R" none, .addChild 0 "A" (some "a"), .addChild 0 "B" (some "b")]
  let offers : List Offer := [.text "x" "(", .tree "no label" t, .tree "x" t,
    .batch (.atOnce [.error (.missingTab 1), .ok ⟨"y", t⟩])]
  obtain ⟨e, hnew, _, h⟩ := accounts_run .standard Config.valid_standard offers
  refine ⟨Config.valid_standard, e, hnew, ?_⟩
  obtain rfl := Except.ok.inj ((new_eq Config.valid_standard).symm.trans hnew)
  have hskipped :
      (run { config := .standard, valid := Config.valid_standard } offers).skippedPlaces =
        [0, 1, 3] := by decide +kernel
  have hkept : (run { config := .standard, valid := Config.valid_standard } offers).keptPlaces =
      [2, 4] := by decide +kernel
  have hsize := h.stored.length_eq
  rw [hkept, Array.length_toList] at hsize
  exact ⟨hskipped, hkept, h.processed.trans hsize⟩

end Extraction

end PathCorpus
