import Mathlib.Data.List.Basic
import PathCorpus.Proofs.Lexicon.Growth

/-!
# Ranks count what is more frequent

One thing *outranks* another if it was counted more often, or as often and comes earlier. The rank
of an id is one more than the number of ids that outrank it. The table of ranks is made in two
steps, a stable sort by count alone and one write for every place in the sorted order. The sort
puts what outranks in front, and the writes give each place the number of places in front of it.

## Main statements

- `Lexicon.pairwise_byFrequency`: the sorted order is that of outranking.
- `Lexicon.getElem?_ranks`: the table of ranks, place by place.
- `Lexicon.perm_ranks`: the ranks are the numbers from 1 up to the size.
- `Lexicon.rankWithin_iff`: the ranks that a limit lets through.
-/

namespace PathCorpus

/-- `a` was counted more often than `b`, or as often and comes earlier. -/
def Outranks {α : Type} (count place : α → Nat) (a b : α) : Prop :=
  count b < count a ∨ count b = count a ∧ place a < place b

instance {α : Type} (count place : α → Nat) (a b : α) : Decidable (Outranks count place a b) :=
  inferInstanceAs (Decidable (_ ∨ _))

theorem Outranks.not_outranks {α : Type} {count place : α → Nat} {a b : α}
    (h : Outranks count place a b) : ¬ Outranks count place b a := by
  unfold Outranks at *
  omega

theorem not_outranks_self {α : Type} {count place : α → Nat} (a : α) :
    ¬ Outranks count place a a := fun h => h.not_outranks h

/-- In an ordered list the elements in front of one are those that are ordered before it. -/
theorem idxOf_eq_countP {α : Type} [DecidableEq α] {count place : α → Nat} {as : List α}
    (h : as.Pairwise (Outranks count place)) {a : α} (ha : a ∈ as) :
    as.idxOf a = as.countP fun b => decide (Outranks count place b a) := by
  induction as with
  | nil => cases ha
  | cons b as ih =>
    obtain ⟨hfirst, hrest⟩ := List.pairwise_cons.mp h
    by_cases hab : b = a
    · -- nothing behind the first element outranks it
      subst hab
      have hnone : ∀ c ∈ as, ¬ (decide (Outranks count place c b) = true) := by
        intro c hc
        simpa using (hfirst c hc).not_outranks
      rw [List.idxOf_cons_self, List.countP_cons_of_neg (by simpa using not_outranks_self b),
        List.countP_eq_zero.mpr hnone]
    · have hmem : a ∈ as := (List.mem_cons.mp ha).resolve_left (Ne.symm hab)
      rw [List.idxOf_cons_ne _ hab, List.countP_cons_of_pos (by simpa using hfirst a hmem),
        ih hrest hmem]

namespace Lexicon

variable {x : Lexicon}

/-! ## §1: The sorted order -/

theorem byFrequency_perm (x : Lexicon) : x.byFrequency.Perm (List.range x.size) :=
  List.mergeSort_perm _ _

theorem nodup_byFrequency (x : Lexicon) : x.byFrequency.Nodup :=
  x.byFrequency_perm.nodup_iff.mpr List.nodup_range

theorem mem_byFrequency {place : Nat} : place ∈ x.byFrequency ↔ place < x.size := by
  rw [x.byFrequency_perm.mem_iff, List.mem_range]

/-- Places with equal counts stay in the order in which the sort found them, which is ascending. -/
theorem pairwise_byFrequency (x : Lexicon) : x.byFrequency.Pairwise (Outranks x.countAt id) := by
  let le := fun i j => decide (x.countAt j ≤ x.countAt i)
  have htrans : ∀ i j k, le i j = true → le j k = true → le i k = true := by
    simp only [le, decide_eq_true_eq]
    omega
  have htotal : ∀ i j, (le i j || le j i) = true := by
    simp only [le, Bool.or_eq_true, decide_eq_true_eq]
    omega
  -- the sort is one of places next to themselves, which settles ties
  let pairs := (List.range x.size).zipIdx.mergeSort (List.zipIdxLE le)
  have hpairs : pairs.Pairwise fun p q => List.zipIdxLE le p q = true :=
    List.pairwise_mergeSort (List.zipIdxLE_trans htrans) (List.zipIdxLE_total htotal) _
  have hsame : ∀ p ∈ pairs, p.2 = p.1 := by
    intro p hp
    obtain ⟨hlt, hget⟩ := List.mem_zipIdx' (List.mem_mergeSort.mp hp)
    rw [hget, List.getElem_range]
  have hfst : x.byFrequency = pairs.map (·.1) := List.mergeSort_zipIdx.symm
  have hne : pairs.Pairwise fun p q => p.1 ≠ q.1 := by
    rw [← List.pairwise_map (f := Prod.fst) (R := fun i j => i ≠ j), ← hfst]
    exact x.nodup_byFrequency
  rw [hfst, List.pairwise_map]
  refine (hpairs.and hne).imp_of_mem fun {p q} hp hq hpq => ?_
  obtain ⟨hle, hne⟩ := hpq
  simp only [List.zipIdxLE, le, hsame p hp, hsame q hq] at hle
  simp only [Outranks, id]
  split at hle
  next h =>
    split at hle
    next h' =>
      simp only [decide_eq_true_eq] at h h' hle
      omega
    next h' =>
      simp only [decide_eq_true_eq] at h h'
      omega
  next => cases hle

/-! ## §2: The table -/

/-- After the writes every place in the list holds the number of its turn, and every other
place what it held before. -/
private theorem getElem?_foldl_set {places : List Nat} (hnodup : places.Nodup) (first : Nat)
    {ranks : Array Nat} {place : Nat} (hlt : place < ranks.size) :
    ((places.zipIdx first).foldl (fun ranks (place, i) => ranks.setIfInBounds place (i + 1))
      ranks)[place]? =
      if place ∈ places then some (first + places.idxOf place + 1) else ranks[place]? := by
  induction places generalizing first ranks with
  | nil => simp
  | cons p places ih =>
    obtain ⟨hp, hnodup⟩ := List.nodup_cons.mp hnodup
    rw [List.zipIdx_cons, List.foldl_cons,
      ih hnodup (first + 1) (by rwa [Array.size_setIfInBounds]), Array.getElem?_setIfInBounds]
    by_cases hplace : p = place
    · -- the first write is not written over
      subst hplace
      simp [hp, hlt]
    · have hcons : place ∈ p :: places ↔ place ∈ places := by
        simp [List.mem_cons, Ne.symm hplace]
      simp only [hcons, hplace, if_false, List.idxOf_cons_ne _ hplace]
      split
      · rw [Nat.add_right_comm first, Nat.add_assoc first]
      · rfl

/-- The rank of a place is one more than the number of places that outrank it. -/
theorem getElem?_ranks {place : Nat} (h : place < x.size) :
    x.ranks[place]? = some ((List.range x.size).countP
      (fun other => decide (Outranks x.countAt id other place)) + 1) := by
  have hmem : place ∈ x.byFrequency := mem_byFrequency.mpr h
  rw [ranks, getElem?_foldl_set x.nodup_byFrequency 0 (by simpa using h), if_pos hmem,
    Nat.zero_add, idxOf_eq_countP x.pairwise_byFrequency hmem, x.byFrequency_perm.countP_eq]

/-- No rank is given twice, and none is passed over. -/
theorem perm_ranks (x : Lexicon) : x.ranks.toList.Perm (List.range' 1 x.size) := by
  have hranks : x.ranks.toList = (List.range x.size).map (x.byFrequency.idxOf · + 1) := by
    apply List.ext_getElem?
    intro place
    rw [Array.getElem?_toList, List.getElem?_map]
    by_cases h : place < x.size
    · rw [getElem?_ranks h, List.getElem?_range h, Option.map_some,
        idxOf_eq_countP x.pairwise_byFrequency (mem_byFrequency.mpr h),
        x.byFrequency_perm.countP_eq]
    · have hsize : x.ranks.size ≤ place := x.size_ranks ▸ Nat.le_of_not_lt h
      simp [hsize, Nat.le_of_not_lt h]
  -- in the sorted order the places of the table stand one after another
  have hsorted : x.byFrequency.map (x.byFrequency.idxOf · + 1) = List.range' 1 x.size := by
    apply List.ext_getElem
    · simp [x.byFrequency_perm.length_eq]
    · intro i h _
      rw [List.getElem_map, x.nodup_byFrequency.idxOf_getElem, List.getElem_range', Nat.one_mul,
        Nat.add_comm]
  rw [hranks, ← hsorted]
  exact x.byFrequency_perm.symm.map _

/-- Which ids are within a limit on ranks. -/
theorem rankWithin_iff {limit : Limit} {place : Nat} (h : place < x.size) :
    rankWithin x.ranks limit (place + 1) = true ↔
      limit.Admits ((List.range x.size).countP
        (fun other => decide (Outranks x.countAt id other place)) + 1) := by
  rw [rankWithin, getElem?_ranks h, Option.any_some, decide_eq_true_eq]

end Lexicon

end PathCorpus
