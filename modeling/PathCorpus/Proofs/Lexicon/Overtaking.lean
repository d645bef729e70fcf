import PathCorpus.Proofs.Lexicon.Frequency

/-!
# What one observation does to ranks

Ranks are made anew by a sort whenever they are asked for, but from one observation to the next
hardly anything changes. Only one count goes up, so of two ids without that count the same one
comes first as before. The id whose count goes up may overtake others. These fall back by one
place, which is the place that it takes in front of them, and all the rest keep their ranks. A
text that is new has been observed once, and since its id is the greatest, it comes last.

## Main statements

- `Lexicon.outranks_observe_iff`: the order of the ids that are not observed.
- `Lexicon.rankOf_observe`: the ranks after an observation of a known text.
- `RankedLexicon.ranks_observe`: one observation after any history.
-/

namespace PathCorpus

namespace Lexicon

variable {x : Lexicon} {v : String} {a b : Nat}

/-! ## §1: Counts -/

/-- One count goes up. -/
theorem countOf_observe (x : Lexicon) (v : String) (a : Nat) :
    (x.observe v).2.countOf a = if a = (x.observe v).1 then x.countOf a + 1 else x.countOf a := by
  rw [countOf, countOf?_observe]
  split <;> rfl

theorem observe_of_idOf?_eq_some (h : x.idOf? v = some a) :
    (x.observe v).1 = a ∧ a ∈ x.ids ∧ (x.observe v).2.ids = x.ids := by
  have hid : (x.observe v).1 = a :=
    valueOf?_injective (x.valueOf?_observe v) ((x.grows_observe v).values (idOf?_eq_some_iff.mp h))
  have hmem : a ∈ x.ids := by
    cases a with
    | zero => simp [idOf?] at h
    | succ place =>
      exact mem_ids_iff.mpr ⟨place, lt_size_of_valueOf? (idOf?_eq_some_iff.mp h), rfl⟩
  refine ⟨hid, hmem, ?_⟩
  obtain ⟨place, hplace, rfl⟩ := mem_ids_iff.mp hmem
  rw [ids, size_observe, hid, if_pos (Nat.succ_le_of_lt hplace), ids]

theorem observe_of_idOf?_eq_none (h : x.idOf? v = none) :
    (x.observe v).1 = x.size + 1 ∧ (x.observe v).2.size = x.size + 1 := by
  have hid : (x.observe v).1 = x.size + 1 := by
    unfold observe
    split
    next place hplace =>
      rw [idOf?, hplace] at h
      cases h
    next => rfl
  exact ⟨hid, by rw [size_observe, hid, if_neg (by omega)]⟩

/-- The ids in use have been observed. -/
theorem Records.one_le_countOf {observed : List String} (h : x.Records observed) (ha : a ∈ x.ids) :
    1 ≤ x.countOf a := by
  have hcount := Lexicon.countOf?_eq ha
  rw [h.countOf?_eq, Option.map_eq_some_iff] at hcount
  obtain ⟨w, hw, hcount⟩ := hcount
  rw [← hcount, Nat.one_le_iff_ne_zero, ← Nat.pos_iff_ne_zero, List.count_pos_iff]
  cases a with
  | zero => cases hw
  | succ place => exact List.mem_eraseDups.mp (List.mem_of_getElem? hw)

/-! ## §2: Who outranks whom -/

/-- Of two ids one outranks the other. -/
theorem outranks_or_outranks (hne : a ≠ b) :
    Outranks x.countOf id a b ∨ Outranks x.countOf id b a := by
  simp only [Outranks, id]
  omega

/-- Between ids that are not observed nothing changes. -/
theorem outranks_observe_iff (ha : a ≠ (x.observe v).1) (hb : b ≠ (x.observe v).1) :
    Outranks (x.observe v).2.countOf id a b ↔ Outranks x.countOf id a b := by
  rw [Outranks, countOf_observe, countOf_observe, if_neg ha, if_neg hb, Outranks]

/-- What the observed id outranks, it still outranks afterwards. -/
theorem Outranks.observe (h : Outranks x.countOf id (x.observe v).1 a) :
    Outranks (x.observe v).2.countOf id (x.observe v).1 a := by
  have hne : a ≠ (x.observe v).1 := fun heq => not_outranks_self _ (heq ▸ h)
  unfold Outranks at *
  rw [countOf_observe, countOf_observe, if_neg hne, if_pos rfl]
  omega

/-- The observed id overtakes another one: it comes after it at first, and then in front of it. -/
def Overtakes (x : Lexicon) (v : String) (a : Nat) : Prop :=
  Outranks x.countOf id a (x.observe v).1 ∧
    Outranks (x.observe v).2.countOf id (x.observe v).1 a

instance (x : Lexicon) (v : String) (a : Nat) : Decidable (x.Overtakes v a) :=
  inferInstanceAs (Decidable (_ ∧ _))

/-! ## §3: A known text -/

/-- How many elements of a list have a property, with one of them taken apart. -/
private theorem countP_eq_add {as : List Nat} (hmem : b ∈ as) (p : Nat → Bool) :
    as.countP p = (as.erase b).countP p + if p b then 1 else 0 := by
  rw [(List.perm_cons_erase hmem).countP_eq, List.countP_cons]

/-- **A known text**: the ids that it overtakes fall back by one place, and the
other ones keep their ranks. -/
theorem rankOf_observe (hknown : x.idOf? v = some b) (ha : a ∈ x.ids) (hne : a ≠ b) :
    (x.observe v).2.rankOf a = x.rankOf a + if x.Overtakes v a then 1 else 0 := by
  obtain ⟨rfl, hmem, hids⟩ := observe_of_idOf?_eq_some hknown
  -- only the observed id may outrank `a` now that did not before
  have hrest : ((x.ids.erase (x.observe v).1).countP fun c =>
      decide (Outranks (x.observe v).2.countOf id c a)) =
      (x.ids.erase (x.observe v).1).countP fun c => decide (Outranks x.countOf id c a) := by
    apply List.countP_congr
    intro c hc
    have hcne := (x.nodup_ids.mem_erase_iff.mp hc).1
    simp only [decide_eq_true_eq, outranks_observe_iff hcne hne]
  have hnow : (if Outranks (x.observe v).2.countOf id (x.observe v).1 a then 1 else 0) =
      (if Outranks x.countOf id (x.observe v).1 a then 1 else 0) +
        if x.Overtakes v a then 1 else 0 := by
    by_cases hbefore : Outranks x.countOf id (x.observe v).1 a
    · have hnot : ¬ x.Overtakes v a := fun h => hbefore.not_outranks h.1
      rw [if_pos hbefore, if_pos (Outranks.observe hbefore), if_neg hnot]
    · have hafter : x.Overtakes v a ↔ Outranks (x.observe v).2.countOf id (x.observe v).1 a :=
        and_iff_right ((outranks_or_outranks hne).resolve_right hbefore)
      simp only [hafter, if_neg hbefore, Nat.zero_add]
  rw [rankOf_eq_countP (hids ▸ ha), rankOf_eq_countP ha, hids, countP_eq_add hmem,
    countP_eq_add hmem, hrest]
  simp only [decide_eq_true_eq, hnow, Nat.add_assoc]

/-- A known text does not fall back. -/
theorem rankOf_observe_le (hknown : x.idOf? v = some b) :
    (x.observe v).2.rankOf b ≤ x.rankOf b := by
  obtain ⟨rfl, hmem, hids⟩ := observe_of_idOf?_eq_some hknown
  rw [rankOf_eq_countP (hids ▸ hmem), rankOf_eq_countP hmem, hids]
  apply Nat.add_le_add_left
  apply List.countP_mono_left
  intro c _ hc
  simp only [decide_eq_true_eq] at hc ⊢
  -- what was outranked by it is not in front of it now
  have hne : c ≠ (x.observe v).1 := by
    rintro rfl
    exact not_outranks_self _ hc
  exact (outranks_or_outranks hne).resolve_right fun h => hc.not_outranks (Outranks.observe h)

/-- Overtaking, told from the ranks before and after. -/
theorem overtakes_iff (hknown : x.idOf? v = some b) (ha : a ∈ x.ids) : x.Overtakes v a ↔
    x.rankOf a < x.rankOf b ∧ (x.observe v).2.rankOf b < (x.observe v).2.rankOf a := by
  obtain ⟨rfl, hmem, hids⟩ := observe_of_idOf?_eq_some hknown
  rw [rankOf_lt_rankOf_iff ha hmem, rankOf_lt_rankOf_iff (hids ▸ hmem) (hids ▸ ha), Overtakes]

/-- The ids that fall back are the ones that were in front and are so no more. -/
theorem rankOf_observe_cases (hknown : x.idOf? v = some b) (ha : a ∈ x.ids) (hne : a ≠ b) :
    ((x.observe v).2.rankOf a = x.rankOf a ∨ (x.observe v).2.rankOf a = x.rankOf a + 1) ∧
      ((x.observe v).2.rankOf a = x.rankOf a + 1 ↔
        x.rankOf a < x.rankOf b ∧ (x.observe v).2.rankOf b < (x.observe v).2.rankOf a) := by
  have hrank := rankOf_observe hknown ha hne
  have hovertakes := overtakes_iff hknown ha
  by_cases hov : x.Overtakes v a
  · rw [if_pos hov] at hrank
    exact ⟨.inr hrank, fun _ => hovertakes.mp hov, fun _ => hrank⟩
  · rw [if_neg hov, Nat.add_zero] at hrank
    exact ⟨.inl hrank, fun hgrown => by omega, fun hov' => absurd (hovertakes.mpr hov') hov⟩

/-- Of two ids that are not observed the same one comes first as before. -/
theorem rankOf_observe_lt_iff (hknown : x.idOf? v = some b) {c : Nat} (ha : a ∈ x.ids)
    (hc : c ∈ x.ids) (hane : a ≠ b) (hcne : c ≠ b) :
    (x.observe v).2.rankOf a < (x.observe v).2.rankOf c ↔ x.rankOf a < x.rankOf c := by
  obtain ⟨rfl, -, hids⟩ := observe_of_idOf?_eq_some hknown
  rw [rankOf_lt_rankOf_iff (hids ▸ ha) (hids ▸ hc), rankOf_lt_rankOf_iff ha hc,
    outranks_observe_iff hane hcne]

/-! ## §4: A new text -/

theorem ids_observe_new (hnew : x.idOf? v = none) :
    (x.observe v).2.ids = x.ids ++ [x.size + 1] := by
  rw [ids, (observe_of_idOf?_eq_none hnew).2, List.range'_concat, ids, Nat.one_mul, Nat.add_comm 1]

theorem ne_of_mem_ids (ha : a ∈ x.ids) : a ≠ x.size + 1 := by
  obtain ⟨place, hplace, rfl⟩ := mem_ids_iff.mp ha
  omega

theorem rankOf?_eq_none (ha : a ∉ x.ids) : x.rankOf? a = none := by
  cases a with
  | zero => rfl
  | succ place =>
    have hle : x.ranks.size ≤ place := by
      rw [size_ranks, ← Nat.not_lt]
      exact fun hlt => ha (mem_ids_iff.mpr ⟨place, hlt, rfl⟩)
    exact Array.getElem?_eq_none hle

/-- A new text is outranked by all others, since they have been observed before. -/
theorem Records.outranks_new {observed : List String} (h : x.Records observed)
    (hnew : x.idOf? v = none) (ha : a ∈ x.ids) :
    Outranks (x.observe v).2.countOf id a (x.observe v).1 := by
  have hid := (observe_of_idOf?_eq_none hnew).1
  have hcount := h.one_le_countOf ha
  have hzero : x.countOf (x.size + 1) = 0 := by
    rw [countOf_succ, countAt, Array.getElem?_eq_none (Nat.le_refl x.size)]
    rfl
  obtain ⟨place, hplace, rfl⟩ := mem_ids_iff.mp ha
  rw [Outranks, countOf_observe, countOf_observe, if_pos rfl, hid, hzero,
    if_neg (ne_of_mem_ids ha), id, id]
  omega

/-- **A new text** comes last, and no other rank changes. -/
theorem Records.rankOf?_observe_new {observed : List String} (h : x.Records observed)
    (hnew : x.idOf? v = none) :
    (x.observe v).2.rankOf? (x.size + 1) = some (x.size + 1) ∧
      ∀ a ≠ x.size + 1, (x.observe v).2.rankOf? a = x.rankOf? a := by
  have hid := (observe_of_idOf?_eq_none hnew).1
  have hids := ids_observe_new hnew
  have hlast : x.size + 1 ∈ (x.observe v).2.ids := by simp [hids]
  constructor
  · -- it is outranked by all ids but itself
    have hall : ∀ a ∈ x.ids,
        decide (Outranks (x.observe v).2.countOf id a (x.size + 1)) = true := by
      intro a ha
      have hfirst := h.outranks_new hnew ha
      rw [hid] at hfirst
      exact decide_eq_true hfirst
    rw [Lexicon.rankOf?_eq hlast, rankOf_eq_countP hlast, hids, List.countP_append,
      List.countP_eq_length.mpr hall, List.countP_singleton, if_neg (by simp [not_outranks_self]),
      ids, List.length_range', Nat.add_zero, Nat.add_comm]
  · intro a hane
    by_cases ha : a ∈ x.ids
    · -- between the old ids nothing changes, and the new one is behind them all
      have ha' : a ∈ (x.observe v).2.ids := hids ▸ List.mem_append_left _ ha
      have hsame : (x.ids.countP fun b => decide (Outranks (x.observe v).2.countOf id b a)) =
          x.ids.countP fun b => decide (Outranks x.countOf id b a) := by
        apply List.countP_congr
        intro b hb
        rw [decide_eq_true_eq, decide_eq_true_eq,
          outranks_observe_iff (hid ▸ ne_of_mem_ids hb) (hid ▸ hane)]
      have hnot : ¬ Outranks (x.observe v).2.countOf id (x.size + 1) a :=
        hid ▸ (h.outranks_new hnew ha).not_outranks
      rw [Lexicon.rankOf?_eq ha', Lexicon.rankOf?_eq ha, rankOf_eq_countP ha', rankOf_eq_countP ha,
        hids, List.countP_append, hsame, List.countP_singleton, if_neg (by simpa using hnot),
        Nat.add_zero]
    · have ha' : a ∉ (x.observe v).2.ids := by simp [hids, ha, hane]
      rw [rankOf?_eq_none ha', rankOf?_eq_none ha]

end Lexicon

/-! ## §5: After any history -/

namespace RankedLexicon

/-- **What one observation does to ranks**, after any history of questions. If the text is new,
its id comes last, and no other rank changes. If it is known, its rank gets no worse. Every
other rank stays or grows by one, it grows for just those ids that were in front and are so no
more, and among themselves the others keep their order. -/
theorem ranks_observe (kind : String) (history : List (Sigma Query)) (v : String) :
    let x := (empty kind).after history
    let id := (x.answer (.observe v)).1
    let y := (x.answer (.observe v)).2
    let size := (x.answer .size).1
    let ids := List.range' 1 size
    ((x.answer (.idOf v)).1 = none → id = size + 1 ∧ (y.answer .size).1 = size + 1 ∧
      (y.answer (.rankOf id)).1 = some (size + 1) ∧
      ∀ a ≠ id, (y.answer (.rankOf a)).1 = (x.answer (.rankOf a)).1) ∧
    ((x.answer (.idOf v)).1 ≠ none → (x.answer (.idOf v)).1 = some id ∧ id ∈ ids ∧
      (y.answer .size).1 = size ∧
      ∃ rank rank' : Nat → Nat,
        (∀ a ∈ ids, (x.answer (.rankOf a)).1 = some (rank a) ∧
          (y.answer (.rankOf a)).1 = some (rank' a)) ∧
        rank' id ≤ rank id ∧
        (∀ a ∈ ids, a ≠ id → (rank' a = rank a ∨ rank' a = rank a + 1) ∧
          (rank' a = rank a + 1 ↔ rank a < rank id ∧ rank' id < rank' a)) ∧
        ∀ a ∈ ids, ∀ b ∈ ids, a ≠ id → b ≠ id → (rank' a < rank' b ↔ rank a < rank b)) := by
  intro x id y size ids
  have h : x.Records (observedIn history) := (records_empty kind).after history
  have h' : y.Records (observedIn history ++ [v]) := (h.answer (.observe v)).2
  constructor
  · intro hnew
    obtain ⟨hid, hsize⟩ := Lexicon.observe_of_idOf?_eq_none hnew
    obtain ⟨hlast, hothers⟩ := h.lexicon.rankOf?_observe_new hnew
    refine ⟨hid, hsize, ?_, fun a ha => ?_⟩
    · rw [h'.answer_rankOf]
      exact hid ▸ hlast
    · rw [h'.answer_rankOf, h.answer_rankOf]
      exact hothers a (hid ▸ ha)
  · intro hknown
    obtain ⟨b, hb⟩ := Option.ne_none_iff_exists'.mp hknown
    obtain ⟨hid, hmem, hids⟩ := Lexicon.observe_of_idOf?_eq_some hb
    obtain rfl : b = id := hid.symm
    have hsize : (x.lexicon.observe v).2.size = x.lexicon.size := by
      simpa [Lexicon.ids] using congrArg List.length hids
    refine ⟨hb, hmem, hsize, x.lexicon.rankOf, y.lexicon.rankOf, fun a ha => ⟨?_, ?_⟩,
      Lexicon.rankOf_observe_le hb, fun a ha hne => ?_, fun a ha c hc hane hcne =>
        Lexicon.rankOf_observe_lt_iff hb ha hc hane hcne⟩
    · rw [h.answer_rankOf]
      exact Lexicon.rankOf?_eq ha
    · rw [h'.answer_rankOf]
      exact Lexicon.rankOf?_eq (hids ▸ ha)
    · exact Lexicon.rankOf_observe_cases hb ha hne

/-- A known text leaves the number of ids as it is, and a fourth one comes in fourth place. -/
theorem ranks_observe_fourth :
    let x := (empty "token").after [⟨_, .observe "a"⟩, ⟨_, .ranks⟩, ⟨_, .observe "b"⟩,
      ⟨_, .observe "c"⟩, ⟨_, .observe "c"⟩]
    ((x.answer (.idOf "b")).1 ≠ none ∧
      ((x.answer (.observe "b")).2.answer .size).1 = (x.answer .size).1) ∧
    (x.answer (.idOf "d")).1 = none ∧
      ((x.answer (.observe "d")).2.answer (.rankOf (x.answer (.observe "d")).1)).1 = some 4 := by
  intro x
  have hknown : (x.answer (.idOf "b")).1 ≠ none := by decide +kernel
  have hnew : (x.answer (.idOf "d")).1 = none := by decide +kernel
  refine ⟨⟨hknown, ?_⟩, hnew, ?_⟩
  · exact ((ranks_observe "token" _ "b").2 hknown).2.2.1
  · exact ((ranks_observe "token" _ "d").1 hnew).2.2.1

/-- The second text overtakes the other two at once. -/
example :
    let x := ((Lexicon.empty "token").observeAll ["a", "b", "c", "c"]).2
    x.ranks = #[2, 3, 1] ∧ (x.observe "b").2.ranks = #[3, 1, 2] := by cbv

end RankedLexicon

end PathCorpus
