import Std.Data.TreeMap.Lemmas

/-!
# Lexicons

A lexicon gives each distinct text an *id*, counting from 1 in the order in which texts are first
observed, and counts how often each was observed. Ids are never given up or changed.

Texts and counts stand in one array, where the text of id `n` has place `n - 1`. A map from texts to
places makes look-ups fast; that the two agree is part of the type.
-/

namespace PathCorpus

/-- A text and the number of times it was observed. -/
structure Entry where
  value : String
  count : Nat
  deriving DecidableEq, Repr, Inhabited

/-- The texts observed, in the order of first sight, and where each of them stands. -/
structure Lexicon where
  /-- What the texts are, such as `token`; it names them in output. -/
  kind : String
  entries : Array Entry := #[]
  places : Std.TreeMap String Nat := ∅
  /-- The map knows the place of every text in the array, and nothing else. -/
  places_spec : ∀ v i, places[v]? = some i ↔ entries[i]?.map Entry.value = some v := by simp

namespace Lexicon

/-! ## §1: Observing -/

/-- The lexicon that has observed nothing. -/
def empty (kind : String) : Lexicon := { kind }

private theorem places_spec_modify (x : Lexicon) (j : Nat) (f : Entry → Entry)
    (hf : ∀ e, (f e).value = e.value) (v : String) (i : Nat) :
    x.places[v]? = some i ↔ (x.entries.modify j f)[i]?.map Entry.value = some v := by
  rw [x.places_spec, Array.getElem?_modify]
  split
  · cases h : x.entries[i]? <;> simp [hf]
  · rfl

private theorem places_spec_push (x : Lexicon) (w : String) (n : Nat)
    (hw : x.places[w]? = none) (v : String) (i : Nat) :
    (x.places.insert w x.entries.size)[v]? = some i ↔
      (x.entries.push ⟨w, n⟩)[i]?.map Entry.value = some v := by
  have hv := x.places_spec v i
  rw [Std.TreeMap.getElem?_insert, Array.getElem?_push]
  by_cases hvw : w = v
  · subst hvw
    -- the new text stood nowhere before
    have hne : i ≠ x.entries.size → (x.entries[i]?.map Entry.value = some w ↔ False) := by
      intro _
      rw [← hv, hw]
      simp
    by_cases hi : i = x.entries.size
    · simp [hi]
    · simp [hi, hne hi, Ne.symm hi]
  · -- any other text stays where it was
    have hc : compare w v ≠ .eq := fun h => hvw (Std.LawfulEqOrd.eq_of_compare h)
    rw [if_neg hc, hv]
    by_cases hi : i = x.entries.size
    · simp [hi, hvw]
    · simp [hi]

/-- Counts one observation of a text, which gets the next id if it is new: the text's id, and the
lexicon after it. There is always a next id, and counts grow without bound. -/
def observe (x : Lexicon) (v : String) : Nat × Lexicon :=
  match h : x.places[v]? with
  | some i =>
    (i + 1,
      { x with
        entries := x.entries.modify i fun e => { e with count := e.count + 1 }
        places_spec := places_spec_modify x i _ fun _ => rfl })
  | none =>
    let place := x.entries.size
    (place + 1,
      { x with
        entries := x.entries.push ⟨v, 1⟩
        places := x.places.insert v place
        places_spec := places_spec_push x v 1 h })

/-- Observes texts one after another: their ids, and the lexicon after them. -/
def observeAll (x : Lexicon) : List String → List Nat × Lexicon
  | [] => ([], x)
  | v :: vs =>
    let (id, x) := x.observe v
    let (ids, x) := x.observeAll vs
    (id :: ids, x)

/-! ## §2: Looking up -/

/-- The number of distinct texts, which is also the greatest id. -/
def size (x : Lexicon) : Nat := x.entries.size

/-- Nothing was observed. -/
def isEmpty (x : Lexicon) : Bool := x.entries.isEmpty

/-- The id of a text that was observed. -/
def idOf? (x : Lexicon) (v : String) : Option Nat := x.places[v]?.map (· + 1)

/-- The entry of an id. There is none for zero. -/
def entry? (x : Lexicon) : (id : Nat) → Option Entry
  | 0 => none
  | place + 1 => x.entries[place]?

/-- The text of an id. -/
def valueOf? (x : Lexicon) (id : Nat) : Option String := (x.entry? id).map (·.value)

/-- How often the text of an id was observed. -/
def countOf? (x : Lexicon) (id : Nat) : Option Nat := (x.entry? id).map (·.count)

/-- The texts with their ids, in the order of ids. -/
def toList (x : Lexicon) : List (Nat × String) :=
  x.entries.toList.zipIdx.map fun (e, place) => (place + 1, e.value)

end Lexicon

end PathCorpus
