import Std.Data.String.ToNat
import PathCorpus.Lexicon.Dictionary
import PathCorpus.Proofs.Lexicon.Growth

/-!
# Reading a dictionary back

A dictionary is cut into lines, each line at its first comma, and the escapes after it are undone.
Ids are kept as they are written: two ids are the same if their digits are, so no number has to be
read.

A dictionary gives back the text of every id within its limit, since no text can end its line or its
id early. Written without a limit it gives back every text that has an id.

## Main statements

- `unescapeDictionaryText_escape`: undoing the escapes.
- `Lexicon.readDictionary_dictionary`: the rows read are the rows written.
- `Lexicon.lookup_dictionary`, `Lexicon.lookup_readDictionary`: looking an id up in what was read.
-/

namespace PathCorpus

/-! ## §1: Separators -/

namespace Text

variable {α : Type} [DecidableEq α] {sep : α}

/-- Finished pieces without separators are the pieces that cutting gives. -/
theorem cut_flatMap_finished {pieces : List (List α)} (h : ∀ p ∈ pieces, sep ∉ p) :
    cut sep (pieces.flatMap (· ++ [sep])) = pieces := by
  induction pieces with
  | nil => rfl
  | cons p pieces ih =>
    rw [List.forall_mem_cons] at h
    have happend : (p :: pieces).flatMap (· ++ [sep]) =
        p ++ sep :: pieces.flatMap (· ++ [sep]) := by simp
    rw [happend, cut_cons sep _ h.1, ih h.2]

/-- Pieces with separators between them, none of them empty. -/
theorem cut_intercalate {pieces : List (List α)} (h : ∀ p ∈ pieces, sep ∉ p ∧ p ≠ []) :
    cut sep ([sep].intercalate pieces) = pieces := by
  induction pieces with
  | nil => rfl
  | cons p pieces ih =>
    rw [List.forall_mem_cons] at h
    cases pieces with
    | nil =>
      rw [List.intercalate_singleton]
      exact cut_of_not_mem sep h.1.1 h.1.2
    | cons q pieces =>
      rw [List.intercalate_cons_cons, List.append_assoc, List.singleton_append,
        cut_cons sep _ h.1.1, ih h.2]

end Text

/-- The digits of an id. -/
def digits (id : Nat) : List Char := (toString id).toList

theorem digits_injective {m n : Nat} (h : digits m = digits n) : m = n :=
  Nat.repr_injective (String.toList_inj.mp h)

theorem isDigit_of_mem_digits {id : Nat} {c : Char} (h : c ∈ digits id) : c.isDigit = true := by
  have hrepr : digits id = Nat.toDigits 10 id := Nat.toList_repr
  rw [hrepr] at h
  exact Nat.isDigit_of_mem_toDigits (by decide) (by decide) h

theorem notMem_digits {id : Nat} {c : Char} (h : c.isDigit = false) : c ∉ digits id := by
  intro hmem
  rw [isDigit_of_mem_digits hmem] at h
  cases h

theorem digits_ne_nil (id : Nat) : digits id ≠ [] := by
  simp [digits, Nat.toDigits_ne_nil]

/-! ## §2: Escapes -/

/-- The text that an escaped text stands for. -/
def unescapeDictionaryText : List Char → List Char
  | [] => []
  | '\\' :: 'n' :: cs => '\n' :: unescapeDictionaryText cs
  | '\\' :: 'r' :: cs => '\r' :: unescapeDictionaryText cs
  | '\\' :: c :: cs => c :: unescapeDictionaryText cs
  | c :: cs => c :: unescapeDictionaryText cs

theorem unescapeDictionaryText_append (c : Char) (cs : List Char) :
    unescapeDictionaryText (escapeDictionaryChar c ++ cs) = c :: unescapeDictionaryText cs := by
  unfold escapeDictionaryChar
  split <;> simp_all [unescapeDictionaryText]

theorem unescapeDictionaryText_escape (cs : List Char) :
    unescapeDictionaryText (cs.flatMap escapeDictionaryChar) = cs := by
  induction cs with
  | nil => rfl
  | cons c cs ih => rw [List.flatMap_cons, unescapeDictionaryText_append, ih]

/-- No character is written with a line feed or a carriage return. -/
theorem notMem_escape {d : Char} (hd : d = '\n' ∨ d = '\r') (c : Char) :
    d ∉ escapeDictionaryChar c := by
  unfold escapeDictionaryChar
  rcases hd with rfl | rfl <;> split <;> simp_all [eq_comm]

/-! ## §3: Dictionaries -/

/-- The texts of a dictionary, each under the digits of its id. -/
abbrev Dictionary := List (List Char × String)

/-- A row of a dictionary: the digits up to the first comma, and the text after it. -/
def readDictionaryRow (row : List Char) : List Char × String :=
  (row.takeWhile (· ≠ ','),
    String.ofList (unescapeDictionaryText (row.dropWhile (· ≠ ',')).tail))

/-- Reads a dictionary, whose first line names the columns. -/
def readDictionary (text : String) : Dictionary :=
  ((Text.cut '\n' text.toList).drop 1).map readDictionaryRow

theorem toList_dictionaryRow (id : Nat) (v : String) :
    (Lexicon.dictionaryRow id v).toList =
      digits id ++ ',' :: v.toList.flatMap escapeDictionaryChar := by
  simp [Lexicon.dictionaryRow, escapeDictionaryText, digits]

theorem readDictionaryRow_dictionaryRow (id : Nat) (v : String) :
    readDictionaryRow (Lexicon.dictionaryRow id v).toList = (digits id, v) := by
  -- the first comma of a row is the one after the id
  have hdigits : ∀ c ∈ digits id, decide (c ≠ ',') = true := by
    intro c hc
    have hne : c ≠ ',' := fun e => notMem_digits (by decide) (e ▸ hc)
    simpa using hne
  rw [readDictionaryRow, toList_dictionaryRow, List.takeWhile_append_of_pos hdigits,
    List.dropWhile_append_of_pos hdigits]
  simp [unescapeDictionaryText_escape]

/-- Rows are told apart by their digits as by their ids. -/
theorem lookup_map_digits (rows : List (Nat × String)) (id : Nat) :
    (rows.map fun (id, v) => (digits id, v)).lookup (digits id) = rows.lookup id := by
  induction rows with
  | nil => rfl
  | cons p rows ih =>
    have hsame : (digits id == digits p.1) = (id == p.1) := by
      rw [Bool.eq_iff_iff, beq_iff_eq, beq_iff_eq]
      exact ⟨digits_injective, congrArg digits⟩
    rw [List.map_cons, List.lookup_cons, List.lookup_cons, ih, hsame]

/-- Leaving out all rows of some ids leaves the others where they are found. -/
theorem lookup_filter (keep : Nat → Bool) (rows : List (Nat × String)) (id : Nat) :
    (rows.filter fun p => keep p.1).lookup id = if keep id then rows.lookup id else none := by
  induction rows with
  | nil => simp
  | cons p rows ih =>
    obtain ⟨a, v⟩ := p
    rw [List.filter_cons, List.lookup_cons]
    by_cases hid : id = a
    · subst hid
      cases hkeep : keep id <;> simp [ih, hkeep]
    · have hne : (id == a) = false := by simpa using hid
      cases hkeep : keep a <;> simp [ih, hne, List.lookup_cons]

namespace Lexicon

variable {x : Lexicon} {id : Nat} {v : String}

/-- The rows written are those of the ids within the limit. -/
theorem dictionaryRows_eq (x : Lexicon) (limit : Limit) :
    x.dictionaryRows limit = (x.toList.filter fun p => rankWithin x.ranks limit p.1).map
      fun (id, v) => dictionaryRow id v := by
  have hkeep : ∀ p ∈ x.toList, decide (limit.Admits (x.ranks.getD (p.1 - 1) 0)) =
      rankWithin x.ranks limit p.1 := by
    intro p hp
    obtain ⟨q, hq, rfl⟩ := List.mem_map.mp hp
    have hlt : q.2 < x.ranks.size := by
      rw [x.size_ranks]
      exact List.snd_lt_of_mem_zipIdx hq
    simp [rankWithin, hlt]
  rw [dictionaryRows, List.filter_congr hkeep]

/-- No line of a dictionary holds a line feed, so cutting the text there gives the lines. -/
theorem cut_dictionary (hkind : '\n' ∉ x.kind.toList) (limit : Limit) :
    Text.cut '\n' (x.dictionary limit).toList =
      (x.dictionaryHeader :: x.dictionaryRows limit).map String.toList := by
  have hlines : (x.dictionary limit).toList =
      ((x.dictionaryHeader :: x.dictionaryRows limit).map String.toList).flatMap
        (· ++ ['\n']) := by
    simp [dictionary, String.toList_join, List.flatMap_map]
  rw [hlines, Text.cut_flatMap_finished]
  rw [List.map_cons, List.forall_mem_cons, dictionaryRows_eq]
  constructor
  · simp [dictionaryHeader, hkind]
  · simp only [List.map_map, List.forall_mem_map]
    intro p _
    -- neither the digits nor the escaped text hold a line feed
    simp [toList_dictionaryRow, notMem_digits, notMem_escape]

theorem readDictionary_dictionary (hkind : '\n' ∉ x.kind.toList) (limit : Limit) :
    readDictionary (x.dictionary limit) =
      (x.toList.filter fun p => rankWithin x.ranks limit p.1).map
        fun (id, v) => (digits id, v) := by
  -- the header is dropped, and every other line is read back as its row
  rw [readDictionary, cut_dictionary hkind, List.map_cons, List.drop_one, List.tail_cons,
    dictionaryRows_eq]
  simp [Function.comp_def, readDictionaryRow_dictionaryRow]

private theorem lookup_zipIdx (entries : List Entry) (first k : Nat) :
    ((entries.zipIdx first).map fun (e, place) => (place + 1, e.value)).lookup (first + k + 1) =
      entries[k]?.map Entry.value := by
  induction entries generalizing first k with
  | nil => rfl
  | cons e entries ih =>
    rw [List.zipIdx_cons, List.map_cons, List.lookup_cons]
    cases k with
    | zero => simp
    | succ k =>
      -- the row at the front has a smaller id
      have hne : (first + (k + 1) + 1 == first + 1) = false := by simp
      rw [hne, show first + (k + 1) + 1 = first + 1 + k + 1 by omega]
      exact ih (first + 1) k

theorem lookup_toList (x : Lexicon) (id : Nat) : x.toList.lookup id = x.valueOf? id := by
  cases id with
  | zero =>
    -- no row has the id zero
    refine List.lookup_eq_none_iff.mpr fun p hp => ?_
    obtain ⟨q, -, rfl⟩ := List.mem_map.mp hp
    rfl
  | succ place =>
    have hfound := lookup_zipIdx x.entries.toList 0 place
    rw [Nat.zero_add, Array.getElem?_toList] at hfound
    exact hfound

/-- A dictionary has just the texts of the ids within its limit, and each is found under its id. -/
theorem lookup_dictionary (hkind : '\n' ∉ x.kind.toList) (limit : Limit) (id : Nat) :
    (readDictionary (x.dictionary limit)).lookup (digits id) =
      if rankWithin x.ranks limit id then x.valueOf? id else none := by
  rw [readDictionary_dictionary hkind, lookup_map_digits, lookup_filter, lookup_toList]

theorem lookup_readDictionary (hkind : '\n' ∉ x.kind.toList) (h : x.valueOf? id = some v) :
    (readDictionary (x.dictionary .unlimited)).lookup (digits id) = some v := by
  rw [lookup_dictionary hkind, if_pos (rankWithin_unlimited h), h]

end Lexicon

end PathCorpus
