import Mathlib.Data.List.Forall2
import PathCorpus.Corpus.Line

/-!
# Lexicons only grow

An id stands for its text from its first observation on, whatever is observed afterwards. So one
can say what an id means without saying when: whatever a lexicon says of an id, every lexicon grown
from it says too.

## Main statements

- `Lexicon.valueOf?_injective`: no text has two ids.
- `Lexicon.valueOf?_observe`: the id that is given for a text stands for that text.
- `Lexicon.grows_observe`: no observation changes what ids stand for.
- `Lexicon.grows_observeAll`, `Lexicon.forall₂_observeAll`: the same for several texts.
- `Lexicon.rankWithin_unlimited`: without a limit every id is within it.
-/

namespace PathCorpus

namespace Lexicon

variable {x y z : Lexicon} {id : Nat} {v : String}

/-! ## §1: Growth -/

/-- `y` knows the text of every id of `x`. -/
structure Grows (x y : Lexicon) : Prop where
  kind : y.kind = x.kind
  values : ∀ {id v}, x.valueOf? id = some v → y.valueOf? id = some v

theorem Grows.refl (x : Lexicon) : x.Grows x := ⟨rfl, fun h => h⟩

theorem Grows.trans (h : x.Grows y) (h' : y.Grows z) : x.Grows z :=
  ⟨h'.kind.trans h.kind, fun hv => h'.values (h.values hv)⟩

theorem valueOf?_succ (x : Lexicon) (place : Nat) :
    x.valueOf? (place + 1) = x.entries[place]?.map Entry.value := rfl

/-- The ids in use are those up to the size. -/
theorem lt_size_of_valueOf? {place : Nat} (h : x.valueOf? (place + 1) = some v) :
    place < x.size := by
  rw [valueOf?_succ, Option.map_eq_some_iff] at h
  obtain ⟨e, he, _⟩ := h
  exact (Array.getElem?_eq_some_iff.mp he).1

/-- No text has two ids. -/
theorem valueOf?_injective {id' : Nat} (h : x.valueOf? id = some v) (h' : x.valueOf? id' = some v) :
    id = id' := by
  cases id with
  | zero => cases h
  | succ place =>
    cases id' with
    | zero => cases h'
    | succ place' =>
      -- both places are the one that the map knows
      have hplace := (x.places_spec v place).mpr h
      have hplace' := (x.places_spec v place').mpr h'
      rw [Option.some.inj (hplace.symm.trans hplace')]

/-- A text has the id under which it is found. -/
theorem idOf?_eq_some_iff : x.idOf? v = some id ↔ x.valueOf? id = some v := by
  cases id with
  | zero => simp [idOf?, valueOf?, entry?]
  | succ place =>
    rw [valueOf?_succ, ← x.places_spec, idOf?]
    simp

/-- Counting an observation leaves every text where it is. -/
private theorem map_value_modify (entries : Array Entry) (i place : Nat) :
    ((entries.modify i fun e => { e with count := e.count + 1 })[place]?).map Entry.value =
      entries[place]?.map Entry.value := by
  rw [Array.getElem?_modify]
  split
  · cases entries[place]? <;> rfl
  · rfl

theorem valueOf?_observe (x : Lexicon) (v : String) :
    (x.observe v).2.valueOf? (x.observe v).1 = some v := by
  unfold observe
  split
  next i h =>
    rw [valueOf?_succ, map_value_modify]
    exact (x.places_spec v i).mp h
  next h => simp [valueOf?_succ]

theorem grows_observe (x : Lexicon) (v : String) : x.Grows (x.observe v).2 := by
  refine ⟨by unfold observe; split <;> rfl, fun {id w} hw => ?_⟩
  cases id with
  | zero => cases hw
  | succ place =>
    have hlt : place < x.entries.size := lt_size_of_valueOf? hw
    rw [valueOf?_succ] at hw ⊢
    unfold observe
    split
    next i h => rw [map_value_modify, hw]
    next h =>
      -- a new text comes after all texts that have an id
      rw [Array.getElem?_push, if_neg (Nat.ne_of_lt hlt), hw]

/-! ## §2: Several observations -/

theorem grows_observeAll (x : Lexicon) (vs : List String) : x.Grows (x.observeAll vs).2 := by
  induction vs generalizing x with
  | nil => exact .refl x
  | cons v vs ih => exact (x.grows_observe v).trans (ih (x.observe v).2)

/-- The ids given for texts stand for these texts. -/
theorem forall₂_observeAll (x : Lexicon) (vs : List String) :
    List.Forall₂ (fun id v => (x.observeAll vs).2.valueOf? id = some v) (x.observeAll vs).1 vs := by
  induction vs generalizing x with
  | nil => exact .nil
  | cons v vs ih =>
    -- the first id was given before the other texts were observed
    have hfirst := ((x.observe v).2.grows_observeAll vs).values (x.valueOf?_observe v)
    exact .cons hfirst (ih (x.observe v).2)

/-! ## §3: Ranks without a limit -/

theorem size_ranks (x : Lexicon) : x.ranks.size = x.size := by
  unfold ranks
  -- writing ranks one after another leaves the size of the table as it is
  refine List.foldlRecOn (motive := fun ranks : Array Nat => ranks.size = x.size) _ _ (by simp) ?_
  intro ranks hsize pair _
  rw [Array.size_setIfInBounds, hsize]

/-- Without a limit every id in use is within it. -/
theorem rankWithin_unlimited (h : x.valueOf? id = some v) :
    rankWithin x.ranks .unlimited id = true := by
  cases id with
  | zero => cases h
  | succ place =>
    have hlt : place < x.ranks.size := x.size_ranks ▸ lt_size_of_valueOf? h
    simp [rankWithin, hlt]

end Lexicon

end PathCorpus
