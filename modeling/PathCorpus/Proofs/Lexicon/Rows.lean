import PathCorpus.Proofs.Lexicon.Rank
import PathCorpus.Proofs.Lexicon.Reader
import PathCorpus.Proofs.Lexicon.Tally

/-!
# The rows of a dictionary

A dictionary under a limit has a line on top and one row for each id whose rank is within
the limit, in the order of ids. Whatever the texts hold, a row is one line, and it can be
read back: the digits of the id end at the first comma, and the escapes after it can be
undone. Ranks are given out without gaps, so the number of rows depends on the limit and on
the size of the lexicon alone.

## Main statements

- `escapeDictionaryText_injective`: no two texts are written in the same way.
- `Lexicon.length_entriesWithin`: the number of ids within a limit.
- `Lexicon.dictionaryLines_eq`: cutting at line feeds drops nothing from the lines.
- `Lexicon.dictionary_decodes`: reading the rows back.
-/

namespace PathCorpus

/-! ## §1: One row -/

theorem escapeDictionaryText_injective {v w : String}
    (h : escapeDictionaryText v = escapeDictionaryText w) : v = w := by
  have hchars : v.toList.flatMap escapeDictionaryChar = w.toList.flatMap escapeDictionaryChar :=
    String.ofList_injective h
  have hread := congrArg unescapeDictionaryText hchars
  rw [unescapeDictionaryText_escape, unescapeDictionaryText_escape] at hread
  exact String.toList_inj.mp hread

theorem return_notMem_dictionaryRow (id : Nat) (v : String) :
    '\r' ∉ (Lexicon.dictionaryRow id v).toList := by
  simp [toList_dictionaryRow, notMem_digits, notMem_escape]

/-- Reads a row of a dictionary: the id up to the first comma, and the text after it without its
escapes. -/
def readRow? (row : String) : Option (Nat × String) :=
  let (digits, v) := readDictionaryRow row.toList
  (String.ofList digits).toNat?.map fun id => (id, v)

theorem readRow?_dictionaryRow (id : Nat) (v : String) :
    readRow? (Lexicon.dictionaryRow id v) = some (id, v) := by
  have hdigits : (String.ofList (digits id)).toNat? = some id := by
    rw [digits, String.ofList_toList]
    exact Nat.toNat?_repr id
  rw [readRow?, readDictionaryRow_dictionaryRow]
  simp [hdigits]

/-- A line without carriage returns has none to drop. -/
theorem Text.dropReturn_of_notMem {line : List Char} (h : '\r' ∉ line) :
    dropReturn line = line := by
  rw [dropReturn, if_neg]
  exact fun hlast => h (List.mem_of_getLast? hlast)

/-- As many numbers from 1 up are within a limit as the limit lets through. -/
theorem Limit.countP_range' (limit : Limit) (n : Nat) :
    (List.range' 1 n).countP (fun rank => decide (limit.Admits rank)) = limit.cap n := by
  cases limit with
  | unlimited => simp [cap]
  | atMost k =>
    induction n with
    | zero => simp [cap]
    | succ n ih =>
      have hlast : (1 + 1 * n ≤ k) ↔ n < k := by omega
      rw [List.range'_concat, List.countP_append, ih, List.countP_singleton]
      simp only [cap, admits_atMost, hlast, decide_eq_true_eq]
      split <;> omega

/-- The places of a list, counting from 1. -/
private theorem map_zipIdx_succ {α : Type} (xs : List α) :
    (xs.zipIdx.map fun p => p.2 + 1) = List.range' 1 xs.length := by
  rw [← xs.zipIdx_map_snd 1, List.zipIdx_succ, List.map_map]
  rfl

namespace Lexicon

variable {x : Lexicon} {limit : Limit} {id : Nat} {v : String}

/-! ## §2: The ids within a limit -/

/-- The ids whose ranks are within the limit, with their texts, in the order of ids. -/
def entriesWithin (x : Lexicon) (limit : Limit) : List (Nat × String) :=
  x.toList.filter fun p => rankWithin x.ranks limit p.1

theorem mem_toList_iff : (id, v) ∈ x.toList ↔ x.valueOf? id = some v := by
  simp only [toList, List.mem_map, Prod.mk.injEq, Prod.exists]
  constructor
  · rintro ⟨e, place, hmem, rfl, rfl⟩
    rw [valueOf?_succ, ← Array.getElem?_toList, List.mem_zipIdx_iff_getElem?.mp hmem,
      Option.map_some]
  · intro hv
    cases id with
    | zero => cases hv
    | succ place =>
      rw [valueOf?_succ, Option.map_eq_some_iff] at hv
      obtain ⟨e, he, rfl⟩ := hv
      rw [← Array.getElem?_toList] at he
      exact ⟨e, place, List.mem_zipIdx_iff_getElem?.mpr he, rfl, rfl⟩

theorem map_fst_toList (x : Lexicon) : x.toList.map Prod.fst = List.range' 1 x.size := by
  rw [size, ← Array.length_toList, ← map_zipIdx_succ, toList, List.map_map]
  rfl

theorem rankWithin_iff_exists_rankOf? :
    rankWithin x.ranks limit id = true ↔ ∃ rank, x.rankOf? id = some rank ∧ limit.Admits rank := by
  cases id with
  | zero => simp [rankWithin, rankOf?]
  | succ place => simp [rankWithin, rankOf?, Option.any_eq_true]

theorem mem_entriesWithin_iff : (id, v) ∈ x.entriesWithin limit ↔
    x.valueOf? id = some v ∧ ∃ rank, x.rankOf? id = some rank ∧ limit.Admits rank := by
  rw [entriesWithin, List.mem_filter, mem_toList_iff, rankWithin_iff_exists_rankOf?]

theorem pairwise_entriesWithin (x : Lexicon) (limit : Limit) :
    (x.entriesWithin limit).Pairwise fun p q => p.1 < q.1 := by
  apply List.Pairwise.filter
  rw [← List.pairwise_map (f := Prod.fst) (R := (· < ·)), map_fst_toList]
  exact List.pairwise_lt_range'

/-- There are as many ids within a limit as the limit lets through. -/
theorem length_entriesWithin (x : Lexicon) (limit : Limit) :
    (x.entriesWithin limit).length = limit.cap x.size := by
  have hranks : (List.range' 1 x.size).countP (rankWithin x.ranks limit) =
      x.ranks.toList.countP fun rank => decide (limit.Admits rank) := by
    -- both go over the table, the one over its places and the other over what stands there
    have hfst := x.ranks.toList.zipIdx_map_fst 0
    rw [← x.size_ranks, ← Array.length_toList, ← map_zipIdx_succ, List.countP_map, ← hfst,
      List.countP_map, hfst]
    apply List.countP_congr
    intro p hp
    have hget := List.mem_zipIdx_iff_getElem?.mp hp
    rw [Array.getElem?_toList] at hget
    simp [rankWithin, hget]
  rw [entriesWithin, ← List.countP_eq_length_filter, ← limit.countP_range' x.size,
    ← x.perm_ranks.countP_eq, ← hranks, ← map_fst_toList, List.countP_map]
  rfl

/-! ## §3: Lines -/

theorem dictionaryRows_eq_map (x : Lexicon) (limit : Limit) :
    x.dictionaryRows limit = (x.entriesWithin limit).map fun (id, v) => dictionaryRow id v :=
  x.dictionaryRows_eq limit

/-- The text cut at line feeds is the line on top and the rows, with nothing cut off them. -/
theorem dictionaryLines_eq (hfeed : '\n' ∉ x.kind.toList) (hreturn : '\r' ∉ x.kind.toList)
    (limit : Limit) :
    x.dictionaryLines limit = x.dictionaryHeader :: x.dictionaryRows limit := by
  rw [dictionaryLines, Text.lines, cut_dictionary hfeed, List.map_map]
  have hkept : ∀ line ∈ x.dictionaryHeader :: x.dictionaryRows limit, '\r' ∉ line.toList := by
    rw [List.forall_mem_cons, dictionaryRows_eq_map, List.forall_mem_map]
    exact ⟨by simp [dictionaryHeader, hreturn], fun p _ => return_notMem_dictionaryRow p.1 p.2⟩
  have hread : ∀ line ∈ x.dictionaryHeader :: x.dictionaryRows limit,
      ((fun line => String.ofList (Text.dropReturn line)) ∘ String.toList) line = id line := by
    intro line hline
    rw [Function.comp_apply, Text.dropReturn_of_notMem (hkept line hline), String.ofList_toList, id]
  exact (List.map_congr_left hread).trans (List.map_id _)

/-- The rows are read back as the ids within the limit and their texts. -/
theorem map_readRow?_dictionaryRows (x : Lexicon) (limit : Limit) :
    (x.dictionaryRows limit).map readRow? = (x.entriesWithin limit).map some := by
  rw [dictionaryRows_eq_map, List.map_map]
  exact List.map_congr_left fun p _ => readRow?_dictionaryRow p.1 p.2

/-! ## §4: After observations -/

/-- The ids with a rank are those with a text. -/
theorem exists_valueOf?_of_rankOf? {rank : Nat} (h : x.rankOf? id = some rank) :
    ∃ v, x.valueOf? id = some v := by
  cases id with
  | zero => cases h
  | succ place =>
    have hlt : place < x.entries.size := by
      rw [← size, ← x.size_ranks]
      exact (Array.getElem?_eq_some_iff.mp h).1
    exact ⟨x.entries[place].value, by simp [valueOf?_succ, hlt]⟩

/-- An id within a limit was given for its text. -/
theorem mem_zip_of_mem_entriesWithin {kind : String} {vs : List String}
    (h : (id, v) ∈ ((empty kind).observeAll vs).2.entriesWithin limit) :
    (id, v) ∈ ((empty kind).observeAll vs).1.zip vs := by
  have hvalue := (mem_entriesWithin_iff.mp h).1
  have htallies := (tallies_empty kind).observeAll vs
  rw [List.nil_append] at htallies
  -- it was given at all, since no id is passed over
  have hid : id ∈ ((empty kind).observeAll vs).1 := by
    cases id with
    | zero => cases hvalue
    | succ place => exact htallies.mem_iff.mpr ⟨by omega, lt_size_of_valueOf? hvalue⟩
  -- and then for the text that it stands for
  obtain ⟨hlength, hgiven⟩ := List.forall₂_iff_zip.mp ((empty kind).forall₂_observeAll vs)
  rw [← List.map_fst_zip (Nat.le_of_eq hlength)] at hid
  obtain ⟨⟨_, w⟩, hzip, rfl⟩ := List.mem_map.mp hid
  obtain rfl : v = w := Option.some.inj (hvalue.symm.trans (hgiven hzip))
  exact hzip

/-- **A dictionary can be read back**: after any observations, the text of a dictionary is cut
at its line feeds into a line that names the columns and one row for each id of a rank within
the limit, in ascending order. Each row is read back as its id and the text that the id was
given for. So the number of lines is known from the limit and the number of texts, and no text
needs to be free of commas, line feeds or anything else. -/
theorem dictionary_decodes (kind : String) (hfeed : '\n' ∉ kind.toList)
    (hreturn : '\r' ∉ kind.toList) (vs : List String) (limit : Limit) :
    let x := ((empty kind).observeAll vs).2
    (∃ rows : List (Nat × String),
      Text.cut '\n' (x.dictionary limit).toList = (x.dictionaryLines limit).map String.toList ∧
      x.dictionaryLines limit = ("id," ++ kind) ::
        rows.map (fun p => toString p.1 ++ "," ++ escapeDictionaryText p.2) ∧
      (x.dictionaryLines limit).tail.map readRow? = rows.map some ∧
      rows.Pairwise (fun p q => p.1 < q.1) ∧
      (∀ id, id ∈ rows.map Prod.fst ↔ ∃ rank, x.rankOf? id = some rank ∧ limit.Admits rank) ∧
      ∀ p ∈ rows, x.valueOf? p.1 = some p.2 ∧ p ∈ ((empty kind).observeAll vs).1.zip vs) ∧
    (x.dictionaryLines limit).length = 1 + limit.cap x.size ∧
    ∀ v w, escapeDictionaryText v = escapeDictionaryText w → v = w := by
  intro x
  have hkind : x.kind = kind := ((empty kind).grows_observeAll vs).kind
  rw [← hkind] at hfeed hreturn
  have hlines := dictionaryLines_eq hfeed hreturn limit
  refine ⟨⟨x.entriesWithin limit, ?_, ?_, ?_, x.pairwise_entriesWithin limit, fun id => ?_, ?_⟩, ?_,
    fun v w => escapeDictionaryText_injective⟩
  · rw [cut_dictionary hfeed, hlines]
  · rw [hlines, dictionaryRows_eq_map, dictionaryHeader, hkind]
    rfl
  · rw [hlines, List.tail_cons, map_readRow?_dictionaryRows]
  · constructor
    · intro hid
      obtain ⟨p, hp, rfl⟩ := List.mem_map.mp hid
      exact (mem_entriesWithin_iff.mp hp).2
    · rintro ⟨rank, hrank, hadmits⟩
      obtain ⟨v, hv⟩ := exists_valueOf?_of_rankOf? hrank
      exact List.mem_map.mpr ⟨(id, v), mem_entriesWithin_iff.mpr ⟨hv, rank, hrank, hadmits⟩, rfl⟩
  · exact fun p hp => ⟨(mem_entriesWithin_iff.mp hp).1, mem_zip_of_mem_entriesWithin hp⟩
  · rw [hlines, List.length_cons, dictionaryRows_eq_map, List.length_map, length_entriesWithin,
      Nat.add_comm]

/-- Texts that hold all that is escaped, look escaped already, or are empty. -/
theorem dictionary_decodes_escapes :
    let vs := ["\\n,\r\n", "", "\\", "a", "\\", ""]
    let x := ((empty "token").observeAll vs).2
    '\n' ∉ "token".toList ∧ '\r' ∉ "token".toList ∧
      (x.dictionaryLines (.atMost 3)).length = 4 ∧
      x.dictionaryLines .unlimited =
        ["id,token", "1,\\\\n\\,\\r\\n", "2,", "3,\\\\", "4,a"] := by
  intro vs x
  have hfeed : '\n' ∉ "token".toList := by decide
  have hreturn : '\r' ∉ "token".toList := by decide
  obtain ⟨_, hlength, -⟩ := dictionary_decodes "token" hfeed hreturn vs (.atMost 3)
  refine ⟨hfeed, hreturn, hlength.trans ?_, ?_⟩
  · decide +kernel
  · rw [dictionaryLines_eq hfeed hreturn]
    decide +kernel

end Lexicon

end PathCorpus
