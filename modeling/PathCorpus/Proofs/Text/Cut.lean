import Mathlib.Data.List.Basic
import PathCorpus.Sample.Source

/-!
# Lines of text and lines of bytes

What it is to be cut at a separator, said without cutting, and that every list is cut in one
way. A line feed is one byte, which no other character has in its UTF-8 form. So it comes to the
same whether a text is cut into lines or the bytes that it is written with.

## Main statements

- `Text.isCut_cut`, `Text.IsCut.eq_cut`: cutting gives the pieces, and no other list is that of the
  pieces.
- `Text.IsCut.utf8`: the lines of a text, written as bytes, are the lines of its bytes.
- `RawLine.decode_eq_ok_iff`: the bytes that have a decoding.
-/

namespace PathCorpus

namespace Text

/-! ## §1: Pieces -/

section Pieces

variable {α : Type} [DecidableEq α] {sep : α}

/-- Every separator ends a piece, and what comes after the last separator is one more
piece unless it is empty. -/
def IsCut (sep : α) (cs : List α) (pieces : List (List α)) : Prop :=
  ∃ finished rest, (∀ p ∈ finished, sep ∉ p) ∧ sep ∉ rest ∧
    cs = finished.flatMap (· ++ [sep]) ++ rest ∧
    pieces = finished ++ if rest = [] then [] else [rest]

theorem IsCut.eq_cut {cs : List α} {pieces : List (List α)} (h : IsCut sep cs pieces) :
    pieces = cut sep cs := by
  obtain ⟨finished, rest, hfinished, hrest, rfl, rfl⟩ := h
  induction finished with
  | nil =>
    split
    next hnil => simp [hnil]
    next hne => simpa using (cut_of_not_mem sep hrest hne).symm
  | cons p finished ih =>
    rw [List.forall_mem_cons] at hfinished
    have happend : (p :: finished).flatMap (· ++ [sep]) ++ rest =
        p ++ sep :: (finished.flatMap (· ++ [sep]) ++ rest) := by simp
    rw [happend, cut_cons sep _ hfinished.1, List.cons_append, ih hfinished.2]

/-- Reading from the back, an element goes to the front of the first piece, unless
it ends a piece of its own. -/
private theorem exists_pieces (sep : α) (cs : List α) :
    ∃ (finished : List (List α)) (rest : List α), (∀ p ∈ finished, sep ∉ p) ∧ sep ∉ rest ∧
      cs = finished.flatMap (· ++ [sep]) ++ rest := by
  induction cs with
  | nil => exact ⟨[], [], by simp, by simp, rfl⟩
  | cons c cs ih =>
    obtain ⟨finished, rest, hfinished, hrest, rfl⟩ := ih
    by_cases hc : c = sep
    · exact ⟨[] :: finished, rest, by simpa using hfinished, hrest, by simp [hc]⟩
    · cases finished with
      | nil => exact ⟨[], c :: rest, by simp, by simp [hrest, Ne.symm hc], by simp⟩
      | cons p finished =>
        rw [List.forall_mem_cons] at hfinished
        refine ⟨(c :: p) :: finished, rest, ?_, hrest, by simp⟩
        rw [List.forall_mem_cons]
        exact ⟨by simp [hfinished.1, Ne.symm hc], hfinished.2⟩

theorem isCut_cut (sep : α) (cs : List α) : IsCut sep cs (cut sep cs) := by
  obtain ⟨finished, rest, hfinished, hrest, hcs⟩ := exists_pieces sep cs
  have hcut : IsCut sep cs (finished ++ if rest = [] then [] else [rest]) :=
    ⟨finished, rest, hfinished, hrest, hcs, rfl⟩
  rwa [hcut.eq_cut] at hcut

/-- A list that ends at a separator has as many pieces as separators. -/
theorem length_cut_concat (sep : α) (cs : List α) :
    (cut sep (cs ++ [sep])).length = (cs ++ [sep]).count sep := by
  obtain ⟨finished, rest, hfinished, hrest, rfl⟩ := exists_pieces sep cs
  induction finished with
  | nil =>
    have hcut := cut_cons sep [] hrest
    simp [hcut, List.count_eq_zero_of_not_mem hrest]
  | cons p finished ih =>
    rw [List.forall_mem_cons] at hfinished
    have happend : (p :: finished).flatMap (· ++ [sep]) ++ rest ++ [sep] =
        p ++ sep :: (finished.flatMap (· ++ [sep]) ++ rest ++ [sep]) := by simp
    rw [happend, cut_cons sep _ hfinished.1, List.length_cons, ih hfinished.2]
    simp [List.count_append, List.count_eq_zero_of_not_mem hfinished.1]

end Pieces

/-! ## §2: Bytes -/

/-- The bytes of a text in UTF-8. -/
def utf8 (cs : List Char) : List UInt8 := cs.flatMap String.utf8EncodeChar

theorem utf8_append (cs ds : List Char) : utf8 (cs ++ ds) = utf8 cs ++ utf8 ds :=
  List.flatMap_append

theorem utf8_newline : utf8 ['\n'] = ['\n'.toUInt8] := by decide

theorem utf8_eq_nil_iff {cs : List Char} : utf8 cs = [] ↔ cs = [] := by
  cases cs with
  | nil => simp [utf8]
  | cons c cs => simp [utf8]

private theorem newline_ne_ofNat {n : Nat} (h : 128 ≤ n) (h' : n < 256) :
    '\n'.toUInt8 ≠ UInt8.ofNat n := by
  intro heq
  have hnat := congrArg UInt8.toNat heq
  rw [UInt8.toNat_ofNat', Nat.mod_eq_of_lt h', show '\n'.toUInt8.toNat = 10 from rfl] at hnat
  omega

/-- The byte of a line feed is no part of another character: in a form of several bytes each of them
has its highest bit set. -/
theorem eq_newline_of_mem_utf8EncodeChar {c : Char} (h : '\n'.toUInt8 ∈ String.utf8EncodeChar c) :
    c = '\n' := by
  unfold String.utf8EncodeChar at h
  dsimp only at h
  split at h
  case isTrue hle =>
    -- a single byte is the number of its character
    have hnat := congrArg UInt8.toNat (List.mem_singleton.mp h)
    rw [UInt8.toNat_ofNat', Nat.mod_eq_of_lt (by omega)] at hnat
    exact Char.ext (UInt32.toNat_inj.mp hnat.symm)
  case isFalse =>
    exfalso
    split at h
    case isTrue =>
      simp only [List.mem_cons, List.not_mem_nil, or_false] at h
      rcases h with h | h <;> exact newline_ne_ofNat (by omega) (by omega) h
    case isFalse =>
      split at h
      case isTrue =>
        simp only [List.mem_cons, List.not_mem_nil, or_false] at h
        rcases h with h | h | h <;> exact newline_ne_ofNat (by omega) (by omega) h
      case isFalse =>
        simp only [List.mem_cons, List.not_mem_nil, or_false] at h
        rcases h with h | h | h | h <;> exact newline_ne_ofNat (by omega) (by omega) h

theorem newline_mem_utf8_iff {cs : List Char} : '\n'.toUInt8 ∈ utf8 cs ↔ '\n' ∈ cs := by
  constructor
  · intro h
    obtain ⟨c, hc, hbyte⟩ := List.mem_flatMap.mp h
    rwa [eq_newline_of_mem_utf8EncodeChar hbyte] at hc
  · intro h
    exact List.mem_flatMap.mpr ⟨'\n', h, by decide⟩

theorem IsCut.utf8 {cs : List Char} {pieces : List (List Char)} (h : IsCut '\n' cs pieces) :
    IsCut '\n'.toUInt8 (Text.utf8 cs) (pieces.map Text.utf8) := by
  obtain ⟨finished, rest, hfinished, hrest, rfl, rfl⟩ := h
  refine ⟨finished.map Text.utf8, Text.utf8 rest, ?_, ?_, ?_, ?_⟩
  · rw [List.forall_mem_map]
    exact fun p hp => fun hmem => hfinished p hp (newline_mem_utf8_iff.mp hmem)
  · exact fun hmem => hrest (newline_mem_utf8_iff.mp hmem)
  · rw [utf8_append]
    congr 1
    induction finished with
    | nil => rfl
    | cons p finished ih =>
      rw [List.forall_mem_cons] at hfinished
      rw [List.flatMap_cons, List.map_cons, List.flatMap_cons, utf8_append, utf8_append,
        utf8_newline, ih hfinished.2]
  · simp only [List.map_append, utf8_eq_nil_iff]
    split <;> rfl

/-! ## §3: Decoding -/

theorem fromUTF8?_eq_some_iff {bytes : ByteArray} {s : String} :
    String.fromUTF8? bytes = some s ↔ bytes = s.toByteArray := by
  unfold String.fromUTF8?
  split
  next h =>
    rw [Option.some.injEq, ← String.toByteArray_inj]
    rfl
  next h =>
    simp only [reduceCtorEq, false_iff]
    exact fun heq => h (heq ▸ s.isValidUTF8)

end Text

/-- Bytes have a decoding exactly if they are the bytes of a text, and then it is that text. -/
theorem RawLine.decode_eq_ok_iff {bytes : List UInt8} {text : List Char} :
    RawLine.decode bytes = .ok text ↔ bytes = Text.utf8 text := by
  have hform : ∀ s : String, String.fromUTF8? bytes.toByteArray = some s ↔
      bytes = Text.utf8 s.toList := by
    intro s
    rw [Text.fromUTF8?_eq_some_iff, ← String.utf8Encode_toList]
    exact List.toByteArray_inj
  have htext : String.fromUTF8? bytes.toByteArray = some (String.ofList text) ↔
      bytes = Text.utf8 text := by
    rw [hform, String.toList_ofList]
  rw [← htext]
  unfold decode
  split
  next s hs =>
    rw [hs, Except.ok.injEq, Option.some.injEq, ← String.toList_inj, String.toList_ofList]
  next hnone => simp [hnone]

theorem RawLine.decode_eq_error_iff {bytes : List UInt8} {fault : ReadFault} :
    RawLine.decode bytes = .error fault ↔
      fault = .invalidUtf8 ∧ ∀ text, bytes ≠ Text.utf8 text := by
  have hnone : (∀ text, bytes ≠ Text.utf8 text) ↔ ∀ text, RawLine.decode bytes ≠ .ok text := by
    simp only [ne_eq, decode_eq_ok_iff]
  rw [hnone]
  unfold decode
  split
  next => simp
  next => simp [eq_comm]

end PathCorpus
