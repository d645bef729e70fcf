import Mathlib.Data.List.Basic
import PathCorpus.Lexicon.Ranked
import PathCorpus.Proofs.Lexicon.Rank

/-!
# Lexicons record their observations

All that a lexicon ever answers can be read off the list of the texts it has observed. The ids
are the places in the list of distinct texts, in the order of first sight; the counts are
multiplicities; the ranks compare counts and, where these are equal, ids. Nothing else that was
asked in between leaves a mark, and neither does a table of ranks that was made and kept.

## Main statements

- `Lexicon.Records.observe`: one observation, in the list and in the lexicon.
- `RankedLexicon.Records.answer`: what one question keeps.
- `RankedLexicon.answer_after`: every answer after every history.
-/

namespace PathCorpus

/-! ## §1: What a list of observations says -/

/-- The id of a text of the list: its place among the distinct ones, counting from 1. -/
def idIn (observed : List String) (v : String) : Nat := observed.eraseDups.idxOf v + 1

/-- The text of an id. There is none for zero, nor above the number of distinct texts. -/
def valueIn? (observed : List String) : (id : Nat) → Option String
  | 0 => none
  | place + 1 => observed.eraseDups[place]?

/-- The rank of a text of the list. -/
def rankIn (observed : List String) (v : String) : Nat :=
  (observed.eraseDups.countP fun w => decide (Outranks observed.count (idIn observed) w v)) + 1

namespace RankedLexicon

/-- The answer to a question, from the list of what was observed before it. -/
def answerFrom (observed : List String) {α : Type} : Query α → α
  | .observe v => idIn (observed ++ [v]) v
  | .idOf v => if v ∈ observed then some (idIn observed v) else none
  | .valueOf id => valueIn? observed id
  | .countOf id => (valueIn? observed id).map observed.count
  | .rankOf id => (valueIn? observed id).map (rankIn observed)
  | .ranks => observed.eraseDups.map (rankIn observed)
  | .size => observed.eraseDups.length
  | .isEmpty => observed.isEmpty
  | .toList => (observed.eraseDups.zipIdx 1).map Prod.swap

/-- What a question observes. -/
def Query.observes {α : Type} : Query α → List String
  | .observe v => [v]
  | _ => []

/-- What a history of questions observes, in order. -/
def observedIn (history : List (Sigma Query)) : List String := history.flatMap (·.2.observes)

end RankedLexicon

theorem eraseDups_concat (observed : List String) (v : String) :
    (observed ++ [v]).eraseDups =
      if v ∈ observed then observed.eraseDups else observed.eraseDups ++ [v] := by
  rw [List.eraseDups_append]
  split
  next h => simp [List.removeAll, h]
  next h => simp [List.removeAll, h, List.eraseDups_cons]

theorem getElem?_idxOf_eraseDups {observed : List String} {v : String} (h : v ∈ observed) :
    observed.eraseDups[observed.eraseDups.idxOf v]? = some v := by
  have hlt := List.idxOf_lt_length_of_mem (List.mem_eraseDups.mpr h)
  rw [List.getElem?_eq_getElem hlt, List.getElem_idxOf]

/-! ## §2: Lexicons -/

namespace Lexicon

/-- The entries are the distinct texts of the list with their multiplicities. -/
def Records (x : Lexicon) (observed : List String) : Prop :=
  x.entries.toList = observed.eraseDups.map fun v => ⟨v, observed.count v⟩

variable {x : Lexicon} {observed : List String}

theorem records_empty (kind : String) : (empty kind).Records [] := rfl

theorem Records.getElem?_entries (h : x.Records observed) (place : Nat) :
    x.entries[place]? = observed.eraseDups[place]?.map fun v => ⟨v, observed.count v⟩ := by
  rw [← Array.getElem?_toList, h, List.getElem?_map]

theorem Records.size_eq (h : x.Records observed) : x.size = observed.eraseDups.length := by
  rw [size, ← Array.length_toList, h, List.length_map]

theorem Records.places_eq (h : x.Records observed) (v : String) :
    x.places[v]? = if v ∈ observed then some (observed.eraseDups.idxOf v) else none := by
  split
  next hmem =>
    rw [x.places_spec, h.getElem?_entries, getElem?_idxOf_eraseDups hmem]
    rfl
  next hmem =>
    rw [Option.eq_none_iff_forall_ne_some]
    intro place hplace
    rw [x.places_spec, h.getElem?_entries, Option.map_map] at hplace
    obtain ⟨w, hw, rfl⟩ := Option.map_eq_some_iff.mp hplace
    exact hmem (List.mem_eraseDups.mp (List.mem_of_getElem? hw))

/-- The place of a distinct text is where it stands. -/
theorem Records.idxOf_eq (h : x.Records observed) {place : Nat} {v : String}
    (hv : observed.eraseDups[place]? = some v) : observed.eraseDups.idxOf v = place := by
  have hplace : x.places[v]? = some place := by
    rw [x.places_spec, h.getElem?_entries, hv]
    rfl
  rw [h.places_eq, if_pos (List.mem_eraseDups.mp (List.mem_of_getElem? hv))] at hplace
  exact Option.some.inj hplace

/-- A known text is counted where it stands. -/
private theorem Records.count_known (h : x.Records observed) {v : String} (hv : v ∈ observed) :
    (x.entries.modify (observed.eraseDups.idxOf v)
      fun e => { e with count := e.count + 1 }).toList =
      observed.eraseDups.map fun w => ⟨w, (observed ++ [v]).count w⟩ := by
  apply List.ext_getElem?
  intro place
  rw [Array.getElem?_toList, Array.getElem?_modify, h.getElem?_entries, List.getElem?_map]
  cases hw : observed.eraseDups[place]? with
  | none => simp
  | some w =>
    by_cases hvw : v = w
    · subst hvw
      simp [h.idxOf_eq hw]
    · -- another text stands elsewhere
      have hplace : observed.eraseDups.idxOf v ≠ place := by
        intro heq
        have hget := getElem?_idxOf_eraseDups hv
        rw [heq, hw] at hget
        exact hvw (Option.some.inj hget).symm
      simp [hplace, List.count_append, hvw]

/-- A new text comes last, and no count but its own changes. -/
private theorem Records.count_new (h : x.Records observed) {v : String} (hv : v ∉ observed) :
    (x.entries.push ⟨v, 1⟩).toList =
      (observed.eraseDups ++ [v]).map fun w => ⟨w, (observed ++ [v]).count w⟩ := by
  have hold : ∀ w ∈ observed.eraseDups,
      (⟨w, (observed ++ [v]).count w⟩ : Entry) = ⟨w, observed.count w⟩ := by
    intro w hw
    have hne : v ≠ w := fun heq => hv (heq ▸ List.mem_eraseDups.mp hw)
    simp [List.count_append, hne]
  rw [Array.toList_push, h, List.map_append, List.map_congr_left hold, List.map_singleton,
    List.count_append, List.count_eq_zero_of_not_mem hv, List.count_singleton_self]

/-- **One observation**: it gives the id that the list with the text gives, and is recorded. -/
theorem Records.observe (h : x.Records observed) (v : String) :
    (x.observe v).1 = idIn (observed ++ [v]) v ∧ (x.observe v).2.Records (observed ++ [v]) := by
  have hplaces := h.places_eq v
  rw [idIn, Records, eraseDups_concat]
  unfold Lexicon.observe
  by_cases hv : v ∈ observed
  · rw [if_pos hv] at hplaces ⊢
    split
    next place hplace =>
      obtain rfl := Option.some.inj (hplace.symm.trans hplaces)
      exact ⟨rfl, h.count_known hv⟩
    next hnone => rw [hplaces] at hnone; cases hnone
  · rw [if_neg hv] at hplaces ⊢
    split
    next place hplace => rw [hplaces] at hplace; cases hplace
    next hnone =>
      refine ⟨?_, h.count_new hv⟩
      show x.size + 1 = _
      have hnew : v ∉ observed.eraseDups := fun hmem => hv (List.mem_eraseDups.mp hmem)
      rw [h.size_eq, List.idxOf_append_of_notMem hnew, List.idxOf_cons_self, Nat.add_zero]

/-! ## §3: What a lexicon that records answers -/

theorem Records.idOf?_eq (h : x.Records observed) (v : String) :
    x.idOf? v = if v ∈ observed then some (idIn observed v) else none := by
  rw [idOf?, h.places_eq]
  split <;> rfl

theorem Records.entry?_eq (h : x.Records observed) (id : Nat) :
    x.entry? id = (valueIn? observed id).map fun v => ⟨v, observed.count v⟩ := by
  cases id with
  | zero => rfl
  | succ place => exact h.getElem?_entries place

theorem Records.valueOf?_eq (h : x.Records observed) (id : Nat) :
    x.valueOf? id = valueIn? observed id := by
  rw [valueOf?, h.entry?_eq, Option.map_map]
  exact Option.map_id'

theorem Records.countOf?_eq (h : x.Records observed) (id : Nat) :
    x.countOf? id = (valueIn? observed id).map observed.count := by
  rw [countOf?, h.entry?_eq, Option.map_map]
  rfl

theorem Records.toList_eq (h : x.Records observed) :
    x.toList = (observed.eraseDups.zipIdx 1).map Prod.swap := by
  rw [toList, h, List.zipIdx_map, List.zipIdx_eq_map_add (i := 1), List.map_map, List.map_map]
  simp [Function.comp_def, Nat.add_comm]

theorem Records.isEmpty_eq (h : x.Records observed) : x.isEmpty = observed.isEmpty := by
  rw [isEmpty, ← Array.isEmpty_toList, h, List.isEmpty_map]
  cases observed with
  | nil => rfl
  | cons v observed => simp [List.eraseDups_cons]

theorem Records.countAt_eq (h : x.Records observed) {place : Nat} {v : String}
    (hv : observed.eraseDups[place]? = some v) : x.countAt place = observed.count v := by
  rw [countAt, h.getElem?_entries, hv]
  rfl

theorem Records.outranks_iff (h : x.Records observed) {i j : Nat} {v w : String}
    (hv : observed.eraseDups[i]? = some v) (hw : observed.eraseDups[j]? = some w) :
    Outranks x.countAt id i j ↔ Outranks observed.count (idIn observed) v w := by
  simp only [Outranks, h.countAt_eq hv, h.countAt_eq hw, idIn, h.idxOf_eq hv, h.idxOf_eq hw, id,
    Nat.add_lt_add_iff_right]

/-- The places that outrank a place are those of the texts that outrank its text. -/
theorem Records.countP_outranks (h : x.Records observed) {place : Nat} {v : String}
    (hv : observed.eraseDups[place]? = some v) :
    ((List.range x.size).countP fun other => decide (Outranks x.countAt id other place)) + 1 =
      rankIn observed v := by
  -- both counts go over the distinct texts together with their places
  have htexts := observed.eraseDups.zipIdx_map_fst 0
  have hplaces : observed.eraseDups.zipIdx.map Prod.snd = List.range x.size := by
    rw [List.zipIdx_map_snd, h.size_eq, List.range_eq_range']
  rw [rankIn, ← hplaces, ← htexts, List.countP_map, List.countP_map, htexts]
  congr 1
  apply List.countP_congr
  intro other hother
  obtain ⟨hlt, hget⟩ := List.mem_zipIdx' hother
  have hw : observed.eraseDups[other.2]? = some other.1 := by
    rw [List.getElem?_eq_getElem hlt, hget]
  simp only [Function.comp_apply, decide_eq_true_eq]
  exact h.outranks_iff hw hv

theorem Records.getElem?_ranks_eq (h : x.Records observed) (place : Nat) :
    x.ranks[place]? = observed.eraseDups[place]?.map (rankIn observed) := by
  cases hv : observed.eraseDups[place]? with
  | none =>
    have hle : x.ranks.size ≤ place := by
      rw [size_ranks, h.size_eq]
      exact List.getElem?_eq_none_iff.mp hv
    exact Array.getElem?_eq_none hle
  | some v =>
    have hlt : place < x.size := h.size_eq ▸ (List.getElem?_eq_some_iff.mp hv).1
    rw [getElem?_ranks hlt, h.countP_outranks hv, Option.map_some]

theorem Records.ranks_eq (h : x.Records observed) :
    x.ranks.toList = observed.eraseDups.map (rankIn observed) := by
  apply List.ext_getElem?
  intro place
  rw [Array.getElem?_toList, h.getElem?_ranks_eq, List.getElem?_map]

end Lexicon

/-! ## §4: Lexicons that keep their ranks -/

namespace RankedLexicon

/-- The lexicon records the list, and a table that was kept holds its ranks. -/
structure Records (x : RankedLexicon) (observed : List String) : Prop where
  lexicon : x.lexicon.Records observed
  ranks : ∀ ranks ∈ x.ranks?, ranks = x.lexicon.ranks

variable {x : RankedLexicon} {observed : List String}

theorem records_empty (kind : String) : (empty kind).Records [] where
  lexicon := Lexicon.records_empty kind
  ranks := by simp [empty]

/-- Asked for its ranks, a lexicon gives those of its counts, whether it kept them or not. -/
theorem Records.ranks_eq (h : x.Records observed) :
    x.ranks.1 = x.lexicon.ranks ∧ x.ranks.2.Records observed := by
  unfold RankedLexicon.ranks
  split
  next ranks hranks => exact ⟨h.ranks ranks hranks, h⟩
  next => exact ⟨rfl, h.lexicon, by simp⟩

theorem Records.rankOf?_eq (h : x.Records observed) (id : Nat) :
    (x.rankOf? id).1 = (valueIn? observed id).map (rankIn observed) ∧
      (x.rankOf? id).2.Records observed := by
  obtain ⟨hranks, hkept⟩ := h.ranks_eq
  unfold rankOf?
  cases id with
  | zero => exact ⟨rfl, hkept⟩
  | succ place =>
    refine ⟨?_, hkept⟩
    show x.ranks.1[place]? = _
    rw [hranks, h.lexicon.getElem?_ranks_eq]
    rfl

/-- **One question**: its answer is that of the list of observations, and what it
observes comes last in the list. -/
theorem Records.answer (h : x.Records observed) {α : Type} (q : Query α) :
    (x.answer q).1 = answerFrom observed q ∧ (x.answer q).2.Records (observed ++ q.observes) := by
  -- all but an observation leave the list as it is
  have hsame : x.Records (observed ++ []) := by rwa [List.append_nil]
  cases q with
  | observe v =>
    obtain ⟨hid, hrecords⟩ := h.lexicon.observe v
    exact ⟨hid, hrecords, by simp [RankedLexicon.answer, RankedLexicon.observe]⟩
  | idOf v => exact ⟨h.lexicon.idOf?_eq v, hsame⟩
  | valueOf id => exact ⟨h.lexicon.valueOf?_eq id, hsame⟩
  | countOf id => exact ⟨h.lexicon.countOf?_eq id, hsame⟩
  | rankOf id =>
    obtain ⟨hrank, hkept⟩ := hsame.rankOf?_eq id
    rw [List.append_nil] at hrank
    exact ⟨hrank, hkept⟩
  | ranks =>
    obtain ⟨hranks, hkept⟩ := hsame.ranks_eq
    refine ⟨?_, hkept⟩
    show x.ranks.1.toList = observed.eraseDups.map (rankIn observed)
    rw [hranks, h.lexicon.ranks_eq]
  | size => exact ⟨h.lexicon.size_eq, hsame⟩
  | isEmpty => exact ⟨h.lexicon.isEmpty_eq, hsame⟩
  | toList => exact ⟨h.lexicon.toList_eq, hsame⟩

theorem Records.after (h : x.Records observed) (history : List (Sigma Query)) :
    (x.after history).Records (observed ++ observedIn history) := by
  induction history generalizing x observed with
  | nil => simpa [RankedLexicon.after, observedIn] using h
  | cons q history ih =>
    have hrest := ih (h.answer q.2).2
    rw [List.append_assoc] at hrest
    exact hrest

/-- The text of an id is the text with that id. -/
theorem valueIn?_eq_some_iff (h : x.Records observed) {id : Nat} {v : String} :
    valueIn? observed id = some v ↔ v ∈ observed ∧ idIn observed v = id := by
  constructor
  · intro hv
    cases id with
    | zero => cases hv
    | succ place =>
      have hmem : v ∈ observed := List.mem_eraseDups.mp (List.mem_of_getElem? hv)
      exact ⟨hmem, by rw [idIn, h.lexicon.idxOf_eq hv]⟩
  · rintro ⟨hmem, rfl⟩
    exact getElem?_idxOf_eraseDups hmem

theorem valueIn?_eq_none_iff {id : Nat} :
    valueIn? observed id = none ↔ id = 0 ∨ observed.eraseDups.length < id := by
  cases id with
  | zero => simp [valueIn?]
  | succ place =>
    rw [valueIn?, List.getElem?_eq_none_iff, Nat.lt_succ_iff]
    simp

/-- **A lexicon refines the list of its observations**: after any history of questions, every
answer is that of the list of the texts observed in it. In particular ids and texts are inverse
to each other from 1 up to the number of texts, and no other number is an id. -/
theorem answer_after (kind : String) (history : List (Sigma Query)) :
    let x := (empty kind).after history
    (∀ {α : Type} (q : Query α), (x.answer q).1 = answerFrom (observedIn history) q) ∧
      (∀ id v, (x.answer (.valueOf id)).1 = some v ↔ (x.answer (.idOf v)).1 = some id) ∧
      ∀ id, (x.answer (.valueOf id)).1 = none ↔ id = 0 ∨ (x.answer .size).1 < id := by
  intro x
  have h : x.Records (observedIn history) := (records_empty kind).after history
  refine ⟨fun q => (h.answer q).1, fun id v => ?_, fun id => ?_⟩
  · rw [(h.answer _).1, (h.answer _).1]
    show valueIn? _ _ = some v ↔ (if v ∈ observedIn history then _ else none) = some id
    rw [valueIn?_eq_some_iff h]
    split
    next hmem => simp [hmem]
    next hmem => simp [hmem]
  · rw [(h.answer _).1, (h.answer _).1]
    exact valueIn?_eq_none_iff

end RankedLexicon

end PathCorpus
