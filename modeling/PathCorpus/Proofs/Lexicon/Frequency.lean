import PathCorpus.Proofs.Lexicon.Observations
import PathCorpus.Proofs.Lexicon.Rows
import PathCorpus.Proofs.Lexicon.Standing

/-!
# Ranks are the order of frequency

The table of ranks is indexed by places, which count from 0, while ids, ranks and the list of ids
count from 1. Here all of it is said in ids. The rank of an id is one more than the number of ids
that outrank it, and two ranks compare as the ids do. So whatever is sorted by rank is sorted by
frequency, and a limit on ranks lets through the most frequent ids, as many as it says.

## Main statements

- `Lexicon.rankOf_eq_countP`: the rank of an id, counted.
- `Lexicon.rankOf_lt_rankOf_iff`: ranks compare as ids outrank each other.
- `Lexicon.length_filter_rankOf_le`: how many ids have a rank up to a limit.
- `RankedLexicon.ranks_after`: the ranks after any history.
-/

namespace PathCorpus

namespace Lexicon

variable {x : Lexicon} {a b : Nat}

/-! ## §1: Ids -/

/-- The ids in use, in ascending order. -/
def ids (x : Lexicon) : List Nat := List.range' 1 x.size

/-- The count of an id in use. -/
def countOf (x : Lexicon) (id : Nat) : Nat := (x.countOf? id).getD 0

/-- The rank of an id in use. -/
def rankOf (x : Lexicon) (id : Nat) : Nat := (x.rankOf? id).getD 0

theorem ids_eq_map (x : Lexicon) : x.ids = (List.range x.size).map (· + 1) := by
  rw [ids, List.range'_eq_map_range]
  exact List.map_congr_left fun place _ => Nat.add_comm 1 place

theorem nodup_ids (x : Lexicon) : x.ids.Nodup := List.nodup_range'

/-- Ids are one more than their places. -/
theorem mem_ids_iff : a ∈ x.ids ↔ ∃ place < x.size, a = place + 1 := by
  simp [ids_eq_map, eq_comm]

theorem countOf_succ (x : Lexicon) (place : Nat) : x.countOf (place + 1) = x.countAt place := rfl

theorem countOf?_eq (ha : a ∈ x.ids) : x.countOf? a = some (x.countOf a) := by
  obtain ⟨place, hplace, rfl⟩ := mem_ids_iff.mp ha
  have hentry : x.entries[place]? = some x.entries[place] := Array.getElem?_eq_getElem hplace
  rw [countOf, countOf?_succ, hentry, Option.map_some, Option.getD_some]

theorem rankOf?_eq (ha : a ∈ x.ids) : x.rankOf? a = some (x.rankOf a) := by
  obtain ⟨place, hplace, rfl⟩ := mem_ids_iff.mp ha
  rw [rankOf, rankOf?_succ hplace, Option.getD_some]

/-! ## §2: Ranks -/

/-- Ids outrank each other as their places do. -/
theorem outranks_succ_iff {i j : Nat} :
    Outranks x.countOf id (i + 1) (j + 1) ↔ Outranks x.countAt id i j := by
  simp only [Outranks, countOf_succ, id, Nat.add_lt_add_iff_right]

theorem rankOf_eq_countP (ha : a ∈ x.ids) :
    x.rankOf a = 1 + x.ids.countP fun b => decide (Outranks x.countOf id b a) := by
  obtain ⟨place, hplace, rfl⟩ := mem_ids_iff.mp ha
  have hrank : x.rankOf? (place + 1) = x.ranks[place]? := rfl
  rw [rankOf, hrank, getElem?_ranks hplace, Option.getD_some, ids_eq_map, List.countP_map,
    Nat.add_comm 1]
  simp only [Function.comp_def, outranks_succ_iff]

theorem rankOf_lt_rankOf_iff (ha : a ∈ x.ids) (hb : b ∈ x.ids) :
    x.rankOf a < x.rankOf b ↔ Outranks x.countOf id a b := by
  obtain ⟨i, hi, rfl⟩ := mem_ids_iff.mp ha
  obtain ⟨j, hj, rfl⟩ := mem_ids_iff.mp hb
  rw [rankOf, rankOf, rankOf?_succ hi, rankOf?_succ hj, Option.getD_some, Option.getD_some,
    Nat.add_lt_add_iff_right, idxOf_byFrequency_lt_iff hi hj, outranks_succ_iff]

theorem toList_ranks (x : Lexicon) : x.ranks.toList = x.ids.map x.rankOf := by
  apply List.ext_getElem?
  intro place
  rw [Array.getElem?_toList, ids_eq_map, List.map_map, List.getElem?_map]
  by_cases hplace : place < x.size
  · rw [List.getElem?_range hplace, Option.map_some]
    exact rankOf?_eq (mem_ids_iff.mpr ⟨place, hplace, rfl⟩)
  · -- neither list has an entry there
    have hranks : x.ranks.size ≤ place := by
      rw [size_ranks]
      exact Nat.le_of_not_lt hplace
    rw [Array.getElem?_eq_none hranks, List.getElem?_eq_none (by simpa using hplace),
      Option.map_none]

/-- The ranks are the numbers from 1 up, each given once. -/
theorem perm_map_rankOf (x : Lexicon) : (x.ids.map x.rankOf).Perm x.ids :=
  x.toList_ranks ▸ x.perm_ranks

theorem length_filter_rankOf_le (x : Lexicon) (limit : Nat) :
    (x.ids.filter fun a => decide (x.rankOf a ≤ limit)).length = min limit x.size := by
  have hranks := x.perm_map_rankOf.countP_eq fun rank => decide (rank ≤ limit)
  rw [List.countP_map] at hranks
  rw [← List.countP_eq_length_filter]
  exact hranks.trans ((Limit.atMost limit).countP_range' x.size)

/-- No id is counted more often than one of a better rank. -/
theorem countOf_le_of_rankOf_lt (ha : a ∈ x.ids) (hb : b ∈ x.ids) (h : x.rankOf a < x.rankOf b) :
    x.countOf b ≤ x.countOf a := by
  rcases (rankOf_lt_rankOf_iff ha hb).mp h with hlt | ⟨heq, -⟩
  · exact Nat.le_of_lt hlt
  · exact Nat.le_of_eq heq

/-- A list of ids is sorted by rank if it is sorted by frequency, and only then. -/
theorem pairwise_rankOf_iff {order : List Nat} (h : order ⊆ x.ids) :
    order.Pairwise (fun a b => x.rankOf a < x.rankOf b) ↔ order.Pairwise (Outranks x.countOf id) :=
  List.Pairwise.iff_of_mem fun ha hb => rankOf_lt_rankOf_iff (h ha) (h hb)

end Lexicon

/-! ## §3: After any history -/

namespace RankedLexicon

variable {x : RankedLexicon} {observed : List String}

theorem Records.answer_rankOf (h : x.Records observed) (id : Nat) :
    (x.answer (.rankOf id)).1 = x.lexicon.rankOf? id := by
  cases id with
  | zero => rfl
  | succ place =>
    show x.ranks.1[place]? = x.lexicon.ranks[place]?
    rw [h.ranks_eq.1]

theorem Records.answer_ranks (h : x.Records observed) :
    (x.answer .ranks).1 = x.lexicon.ids.map x.lexicon.rankOf := by
  show x.ranks.1.toList = _
  rw [h.ranks_eq.1, Lexicon.toList_ranks]

/-- **Ranks are the order of frequency**: after any history of questions, the rank of an id is
one more than the number of ids that were observed more often, or as often and are smaller. So
the ranks are the numbers from 1 to the number of ids in some order, and the ids are sorted by
rank exactly when they are sorted by descending count and, where counts are equal, by ascending
id. Up to a limit there are as many ranks as the limit says, as far as there are ids, and no id
beyond it has a higher count than one within. -/
theorem ranks_after (kind : String) (history : List (Sigma Query)) :
    let x := (empty kind).after history
    let size := (x.answer .size).1
    let ids := List.range' 1 size
    ∃ count rank : Nat → Nat,
      (∀ a ∈ ids, (x.answer (.countOf a)).1 = some (count a) ∧
        (x.answer (.rankOf a)).1 = some (rank a) ∧
        rank a = 1 + (ids.filter fun b => count a < count b ∨ count a = count b ∧ b < a).length) ∧
      (x.answer .ranks).1 = ids.map rank ∧
      (x.answer .ranks).1.Perm ids ∧
      (∀ order : List Nat, order.Perm ids → (order.Pairwise (fun a b => rank a < rank b) ↔
        order.Pairwise fun a b => count b < count a ∨ count b = count a ∧ a < b)) ∧
      ∀ limit, (ids.filter fun a => rank a ≤ limit).length = min limit size ∧
        ∀ a ∈ ids, ∀ b ∈ ids, rank a ≤ limit → limit < rank b → count b ≤ count a := by
  intro x size ids
  have h : x.Records (observedIn history) := (records_empty kind).after history
  refine ⟨x.lexicon.countOf, x.lexicon.rankOf, fun a ha => ⟨?_, ?_, ?_⟩, h.answer_ranks, ?_,
    fun order horder => Lexicon.pairwise_rankOf_iff horder.subset, fun limit => ⟨?_, ?_⟩⟩
  · exact Lexicon.countOf?_eq ha
  · rw [h.answer_rankOf]
    exact Lexicon.rankOf?_eq ha
  · rw [← List.countP_eq_length_filter]
    exact Lexicon.rankOf_eq_countP ha
  · rw [h.answer_ranks]
    exact x.lexicon.perm_map_rankOf
  · exact x.lexicon.length_filter_rankOf_le limit
  · intro a ha b hb hwithin hbeyond
    exact Lexicon.countOf_le_of_rankOf_lt ha hb (Nat.lt_of_le_of_lt hwithin hbeyond)

/-- Two texts that were observed once each keep the order of their ids. -/
example : ((Lexicon.empty "path").observeAll ["a", "b", "c", "c", "b", "d", "c"]).2.ranks =
    #[3, 2, 1, 4] := by cbv

end RankedLexicon

end PathCorpus
