import PathCorpus.Proofs.Lexicon.Rank
import PathCorpus.Proofs.Lexicon.Tally

/-!
# How things stand in a lexicon

A thing that is given to a lexicon need not be the text that is observed for it: a path is observed
under a key that is made of other ids. All that matters is that its id can be found again, and that
no two things have one id. Then the count of the id is the number of times that the thing was
given, and of two things that were given unequally often the more frequent one comes first by rank.
Neither depends on what the ids are, nor on the order in which the things came.

## Main statements

- `Lexicon.idxOf_byFrequency_lt_iff`: ranks compare as counts and places do.
- `Lexicon.TalliesBy.countOf?_eq`, `Lexicon.TalliesBy.exists_ranks`: counts and ranks of things.
- `Lexicon.TalliesBy.countsAlike`: two lexicons that were given the same things in different order.
-/

namespace PathCorpus

namespace Lexicon

variable {x y : Lexicon}

/-! ## §1: Ranks of two ids -/

/-- In the sorted order one place comes before another if it outranks the other. -/
theorem idxOf_byFrequency_lt_iff {i j : Nat} (hi : i < x.size) (hj : j < x.size) :
    x.byFrequency.idxOf i < x.byFrequency.idxOf j ↔ Outranks x.countAt id i j := by
  -- one direction is read off the sorted list, and it gives the other: ids compare one way or
  -- the other
  have hsorted : ∀ {i j : Nat}, i < x.size → j < x.size →
      x.byFrequency.idxOf i < x.byFrequency.idxOf j → Outranks x.countAt id i j := by
    intro i j hi hj hlt
    have hi' := List.idxOf_lt_length_of_mem (mem_byFrequency.mpr hi)
    have hj' := List.idxOf_lt_length_of_mem (mem_byFrequency.mpr hj)
    have hpair := List.pairwise_iff_getElem.mp x.pairwise_byFrequency _ _ hi' hj' hlt
    rwa [List.getElem_idxOf, List.getElem_idxOf] at hpair
  constructor
  · exact hsorted hi hj
  · intro houtranks
    rcases Nat.lt_trichotomy (x.byFrequency.idxOf i) (x.byFrequency.idxOf j) with hlt | heq | hlt
    · exact hlt
    · -- two places that stand at one index are one place
      obtain rfl := (List.idxOf_inj (mem_byFrequency.mpr hi)).mp heq
      exact absurd houtranks (not_outranks_self i)
    · exact absurd (hsorted hj hi hlt) houtranks.not_outranks

theorem rankOf?_succ {place : Nat} (h : place < x.size) :
    x.rankOf? (place + 1) = some (x.byFrequency.idxOf place + 1) := by
  rw [rankOf?, getElem?_ranks h, idxOf_eq_countP x.pairwise_byFrequency (mem_byFrequency.mpr h),
    x.byFrequency_perm.countP_eq]

/-! ## §2: Things and their ids -/

/-- The lexicon tallies the things of a list: it gave an id for each of them in order, and these ids
are found again. -/
structure TalliesBy {κ : Type} (x : Lexicon) (id? : κ → Option Nat) (given : List κ) : Prop where
  ids : ∃ ids, x.Tallies ids ∧ List.Forall₂ (fun id k => id? k = some id) ids given
  injective : ∀ {j k id}, id? j = some id → id? k = some id → j = k
  /-- No id is found but those that the lexicon gave. -/
  used : ∀ {k id}, id? k = some id → ∃ v, x.valueOf? id = some v

/-- Texts are found under the ids that were given for them. -/
theorem Tallies.talliesBy {ids : List Nat} {vs : List String} (h : x.Tallies ids)
    (hvalues : List.Forall₂ (fun id v => x.valueOf? id = some v) ids vs) :
    x.TalliesBy x.idOf? vs where
  ids := ⟨ids, h, hvalues.imp fun _ _ => idOf?_eq_some_iff.mpr⟩
  injective hj hk := by
    rw [idOf?_eq_some_iff] at hj hk
    exact Option.some.inj (hj.symm.trans hk)
  used hid := ⟨_, idOf?_eq_some_iff.mp hid⟩

namespace TalliesBy

variable {κ : Type} {id? : κ → Option Nat} {given : List κ} {j k : κ}

private theorem exists_id_of_mem {ids : List Nat}
    (h : List.Forall₂ (fun id k => id? k = some id) ids given) (hk : k ∈ given) :
    ∃ id, id? k = some id := by
  induction h with
  | nil => cases hk
  | cons hid _ ih =>
    rcases List.mem_cons.mp hk with rfl | hk
    · exact ⟨_, hid⟩
    · exact ih hk

variable [DecidableEq κ]

/-- An id occurs as often as the thing that it is the id of. -/
private theorem count_eq (hinjective : ∀ {j k id}, id? j = some id → id? k = some id → j = k)
    {ids : List Nat} (hids : List.Forall₂ (fun id k => id? k = some id) ids given) {id : Nat}
    (hid : id? k = some id) : ids.count id = given.count k := by
  induction hids with
  | nil => rfl
  | @cons id' k' _ _ hid' _ ih =>
    -- both counts go up at the same places
    have hsame : id' = id ↔ k' = k := by
      constructor
      · rintro rfl
        exact hinjective hid' hid
      · rintro rfl
        exact Option.some.inj (hid'.symm.trans hid)
    simp only [List.count_cons, ih, beq_iff_eq, hsame]

/-- The things that were given have ids in use, with their number of occurrences for a count. -/
theorem exists_place (h : x.TalliesBy id? given) (hk : k ∈ given) :
    ∃ place, place < x.size ∧ id? k = some (place + 1) ∧ x.countAt place = given.count k := by
  obtain ⟨ids, htallies, hids⟩ := h.ids
  obtain ⟨id, hid⟩ := exists_id_of_mem hids hk
  have hcount := count_eq h.injective hids hid
  have hmem : id ∈ ids := by
    rw [← List.count_pos_iff, hcount, List.count_pos_iff]
    exact hk
  obtain ⟨hpositive, hle⟩ := htallies.mem_iff.mp hmem
  obtain ⟨place, rfl⟩ := Nat.exists_eq_add_one.mpr hpositive
  exact ⟨place, hle, hid, by rw [htallies.countAt_eq, hcount]⟩

/-- What was not given has no id. -/
theorem eq_none_of_notMem (h : x.TalliesBy id? given) (hk : k ∉ given) : id? k = none := by
  rw [Option.eq_none_iff_forall_ne_some]
  intro id hid
  obtain ⟨ids, htallies, hids⟩ := h.ids
  obtain ⟨v, hv⟩ := h.used hid
  obtain ⟨n, hn, -⟩ := htallies.exists_countOf? hv
  -- an id in use was given, so the thing that it is the id of was given too
  have hmem : id ∈ ids := by
    by_contra hnot
    rw [htallies.counts, if_neg hnot] at hn
    cases hn
  rw [← List.count_pos_iff, count_eq h.injective hids hid, List.count_pos_iff] at hmem
  exact hk hmem

theorem countOf?_eq (h : x.TalliesBy id? given) (k : κ) :
    (id? k).bind x.countOf? = if k ∈ given then some (given.count k) else none := by
  split
  next hk =>
    obtain ⟨place, hplace, hid, hcount⟩ := h.exists_place hk
    have hentry : x.entries[place]? = some x.entries[place] := Array.getElem?_eq_getElem hplace
    rw [hid, Option.bind_some, countOf?_succ, ← hcount, countAt, hentry]
    rfl
  next hk => rw [h.eq_none_of_notMem hk, Option.bind_none]

/-- What was given more often comes first by rank. -/
theorem exists_ranks (h : x.TalliesBy id? given) (hj : j ∈ given) (hk : k ∈ given)
    (hne : given.count j ≠ given.count k) :
    ∃ r s, (id? j).bind x.rankOf? = some r ∧ (id? k).bind x.rankOf? = some s ∧
      (r < s ↔ given.count k < given.count j) := by
  obtain ⟨place, hplace, hid, hcount⟩ := h.exists_place hj
  obtain ⟨place', hplace', hid', hcount'⟩ := h.exists_place hk
  refine ⟨_, _, by rw [hid, Option.bind_some, rankOf?_succ hplace],
    by rw [hid', Option.bind_some, rankOf?_succ hplace'], ?_⟩
  rw [Nat.add_lt_add_iff_right, idxOf_byFrequency_lt_iff hplace hplace', Outranks, hcount, hcount']
  -- the ids decide only between equal counts
  exact or_iff_left fun htie => hne htie.1.symm

end TalliesBy

/-! ## §3: Two lexicons -/

/-- Two lexicons, each with a way of its own to find ids, have counted all things equally often.
Of two things that were counted unequally often both rank the more frequent one first. -/
structure CountsAlike {κ : Type} (x : Lexicon) (id? : κ → Option Nat) (y : Lexicon)
    (id?' : κ → Option Nat) : Prop where
  counts : ∀ k, (id? k).bind x.countOf? = (id?' k).bind y.countOf?
  ranks : ∀ j k m n, (id? j).bind x.countOf? = some m → (id? k).bind x.countOf? = some n → m ≠ n →
    ∃ r s r' s', (id? j).bind x.rankOf? = some r ∧ (id? k).bind x.rankOf? = some s ∧
      (id?' j).bind y.rankOf? = some r' ∧ (id?' k).bind y.rankOf? = some s' ∧
      (r < s ↔ n < m) ∧ (r' < s' ↔ n < m)

theorem TalliesBy.countsAlike {κ : Type} [DecidableEq κ] {id? id?' : κ → Option Nat}
    {given given' : List κ} (h : x.TalliesBy id? given) (h' : y.TalliesBy id?' given')
    (hperm : given.Perm given') : x.CountsAlike id? y id?' where
  counts k := by simp only [h.countOf?_eq, h'.countOf?_eq, hperm.mem_iff, hperm.count_eq]
  ranks j k m n hm hn hne := by
    -- only what was given has a count, and this is its number of occurrences
    have hgiven : ∀ {k n}, (id? k).bind x.countOf? = some n → k ∈ given ∧ given.count k = n := by
      intro k n hn
      rw [h.countOf?_eq] at hn
      split at hn
      next hk => exact ⟨hk, Option.some.inj hn⟩
      next => cases hn
    obtain ⟨hj, rfl⟩ := hgiven hm
    obtain ⟨hk, rfl⟩ := hgiven hn
    obtain ⟨r, s, hr, hs, hlt⟩ := h.exists_ranks hj hk hne
    have hne' := hne
    rw [hperm.count_eq, hperm.count_eq] at hne'
    obtain ⟨r', s', hr', hs', hlt'⟩ :=
      h'.exists_ranks (hperm.mem_iff.mp hj) (hperm.mem_iff.mp hk) hne'
    refine ⟨r, s, r', s', hr, hs, hr', hs', hlt, ?_⟩
    rw [hlt', hperm.count_eq, hperm.count_eq]

end Lexicon

end PathCorpus
