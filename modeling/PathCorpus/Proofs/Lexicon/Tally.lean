import PathCorpus.Proofs.Lexicon.Growth

/-!
# Lexicons keep tallies

What a lexicon knows of the ids that it has given is how often it gave each of them, and that is
all that is left of the order in which texts came. Listed as they were given, the ids therefore
fix every count, and since a new text gets the next number, they fix the size as well: the first
sights of ids in the list are 1, 2, 3 and so on.

`Lexicon.Tallies` relates a lexicon to such a list. One observation appends one id to the list and
keeps the relation, whether the text was known or is new.

## Main statements

- `Lexicon.observe_cases`: all that one observation can do.
- `Lexicon.countOf?_observe`: the counts after an observation.
- `Lexicon.Tallies.observe`, `Lexicon.Tallies.observeAll`: the list grows with the lexicon.
- `Lexicon.Tallies.exists_countOf?`: whatever has an id was counted at least once.
-/

namespace PathCorpus

namespace Lexicon

variable {x : Lexicon} {ids : List Nat}

/-! ## §1: One observation -/

/-- A known text gets the id of its place and one more count there; a new text gets the next id. -/
theorem observe_cases (x : Lexicon) (v : String) :
    (∃ place, place < x.size ∧ (x.observe v).1 = place + 1 ∧ (x.observe v).2.entries =
        x.entries.modify place fun e => { e with count := e.count + 1 }) ∨
      ((x.observe v).1 = x.size + 1 ∧ (x.observe v).2.entries = x.entries.push ⟨v, 1⟩) := by
  unfold observe
  split
  next place h =>
    have hvalue : x.valueOf? (place + 1) = some v := (x.places_spec v place).mp h
    exact .inl ⟨place, lt_size_of_valueOf? hvalue, rfl, rfl⟩
  next => exact .inr ⟨rfl, rfl⟩

theorem countOf?_succ (x : Lexicon) (place : Nat) :
    x.countOf? (place + 1) = x.entries[place]?.map Entry.count := rfl

theorem one_le_observe (x : Lexicon) (v : String) : 1 ≤ (x.observe v).1 := by
  obtain ⟨place, _, hid, _⟩ | ⟨hid, _⟩ := x.observe_cases v <;> omega

theorem size_observe (x : Lexicon) (v : String) :
    (x.observe v).2.size = if (x.observe v).1 ≤ x.size then x.size else (x.observe v).1 := by
  obtain ⟨place, hlt, hid, hentries⟩ | ⟨hid, hentries⟩ := x.observe_cases v
  · rw [if_pos (by omega), size, hentries, Array.size_modify, size]
  · rw [if_neg (by omega), size, hentries, Array.size_push, hid, size]

/-- No id is passed over. -/
theorem observe_le (x : Lexicon) (v : String) : (x.observe v).1 ≤ x.size + 1 := by
  obtain ⟨place, hlt, hid, _⟩ | ⟨hid, _⟩ := x.observe_cases v <;> omega

theorem countOf?_observe (x : Lexicon) (v : String) (id : Nat) :
    (x.observe v).2.countOf? id =
      if id = (x.observe v).1 then some ((x.countOf? id).getD 0 + 1) else x.countOf? id := by
  cases id with
  | zero => rw [if_neg (by have := x.one_le_observe v; omega)]; rfl
  | succ i =>
    obtain ⟨place, hlt, hid, hentries⟩ | ⟨hid, hentries⟩ := x.observe_cases v
    · have hentry : x.entries[place]? = some x.entries[place] := Array.getElem?_eq_getElem hlt
      rw [countOf?_succ, countOf?_succ, hentries, hid, Array.getElem?_modify]
      by_cases hi : i = place
      · simp [hi, hentry]
      · simp [hi, Ne.symm hi]
    · rw [countOf?_succ, countOf?_succ, hentries, hid, Array.getElem?_push]
      by_cases hi : i = x.size
      · simp [hi, size]
      · have hnext : i ≠ x.entries.size := hi
        simp [hi, hnext]

/-! ## §2: Tallies -/

/-- The lexicon gave these ids, in this order: the count of an id is its number of
occurrences, an id that does not occur is not in use, and in the order of first occurrence the
ids are 1, 2, 3 and so on. -/
structure Tallies (x : Lexicon) (ids : List Nat) : Prop where
  counts : ∀ id, x.countOf? id = if id ∈ ids then some (ids.count id) else none
  firsts : ids.eraseDups = List.range' 1 x.size

theorem tallies_empty (kind : String) : (empty kind).Tallies [] where
  counts id := by cases id <;> rfl
  firsts := rfl

theorem Tallies.mem_iff (h : x.Tallies ids) {id : Nat} : id ∈ ids ↔ 1 ≤ id ∧ id ≤ x.size := by
  rw [← List.mem_eraseDups, h.firsts, List.mem_range'_1]
  omega

/-- Every id in use was given at least once. -/
theorem Tallies.exists_countOf? (h : x.Tallies ids) {id : Nat} {v : String}
    (hv : x.valueOf? id = some v) : ∃ n, x.countOf? id = some n ∧ 1 ≤ n := by
  obtain ⟨e, hentry, _⟩ := Option.map_eq_some_iff.mp hv
  have hcount : x.countOf? id = some e.count := by rw [Lexicon.countOf?, hentry, Option.map_some]
  refine ⟨e.count, hcount, ?_⟩
  rw [h.counts] at hcount
  split at hcount
  next hmem =>
    rw [← Option.some.inj hcount]
    exact List.count_pos_iff.mpr hmem
  next => cases hcount

theorem Tallies.exists_valueOf? (h : x.Tallies ids) {a : Nat} (ha : a ∈ ids) :
    ∃ v, x.valueOf? a = some v := by
  have hcount := h.counts a
  rw [if_pos ha, countOf?, Option.map_eq_some_iff] at hcount
  obtain ⟨e, he, -⟩ := hcount
  exact ⟨e.value, by rw [valueOf?, he, Option.map_some]⟩

theorem Tallies.countAt_eq (h : x.Tallies ids) (place : Nat) :
    x.countAt place = ids.count (place + 1) := by
  rw [countAt, ← countOf?_succ, h.counts]
  split
  next => rfl
  next hnew => rw [List.count_eq_zero_of_not_mem hnew, Option.getD_none]

theorem Tallies.observe (h : x.Tallies ids) (v : String) :
    (x.observe v).2.Tallies (ids ++ [(x.observe v).1]) where
  counts id := by
    rw [countOf?_observe, h.counts]
    by_cases hid : id = (x.observe v).1
    · by_cases hmem : id ∈ ids
      · simp [hid ▸ hmem, hid]
      · simp [← hid, hmem, List.count_eq_zero_of_not_mem hmem]
    · simp [hid, Ne.symm hid]
  firsts := by
    have hone := x.one_le_observe v
    have hle := x.observe_le v
    rw [List.eraseDups_append, h.firsts, size_observe]
    by_cases hmem : (x.observe v).1 ∈ ids
    · -- a known id has been seen before
      rw [if_pos (h.mem_iff.mp hmem).2]
      simp [List.removeAll, hmem]
    · -- and one that is new is the next in turn
      have hnext : (x.observe v).1 = x.size + 1 := by
        have hnew := mt h.mem_iff.mpr hmem
        omega
      have hkept : ([(x.observe v).1].removeAll ids).eraseDups = [(x.observe v).1] := by
        simp [List.removeAll, hmem, List.eraseDups_cons]
      rw [if_neg (by omega), hkept, hnext, List.range'_concat]
      simp [Nat.add_comm]

theorem Tallies.observeAll (h : x.Tallies ids) (vs : List String) :
    (x.observeAll vs).2.Tallies (ids ++ (x.observeAll vs).1) := by
  induction vs generalizing x ids with
  | nil => simpa [Lexicon.observeAll] using h
  | cons v vs ih =>
    have hrest := ih (h.observe v)
    rw [List.append_assoc] at hrest
    exact hrest

end Lexicon

end PathCorpus
