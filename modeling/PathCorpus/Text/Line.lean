/-!
# Lines

A list cut at a separator, in particular text and bytes cut at line feeds. A line feed ends a
line: text that ends in one has no empty line after it, and text that does not still ends its
last line.

Main statement: `cut_append`, the lines of a text that ends in a line feed and of any text after
it are those of the first and then those of the second.
-/

namespace PathCorpus.Text

variable {α : Type} [DecidableEq α]

/-! ## §1: Cutting at a separator -/

/-- The pieces that end at a separator, and the unfinished piece after the last separator unless
it is empty. What has been read of the current piece is held in `piece`, last element first. -/
def cutFrom (sep : α) (piece : List α) : List α → List (List α)
  | [] => if piece = [] then [] else [piece.reverse]
  | c :: cs => if c = sep then piece.reverse :: cutFrom sep [] cs else cutFrom sep (c :: piece) cs

/-- The list cut at every separator; a separator belongs to no piece. -/
def cut (sep : α) (cs : List α) : List (List α) := cutFrom sep [] cs

@[simp] theorem cut_nil (sep : α) : cut sep [] = [] := rfl

private theorem cutFrom_append_sep (sep : α) (a b piece : List α) :
    cutFrom sep piece (a ++ sep :: b) = cutFrom sep piece (a ++ [sep]) ++ cut sep b := by
  induction a generalizing piece with
  | nil => simp [cutFrom, cut]
  | cons c cs ih =>
    by_cases hc : c = sep
    · simp [cutFrom, hc, ih]
    · simp [cutFrom, hc, ih]

/-- Cutting commutes with appending after a finished piece. -/
theorem cut_append (sep : α) (a b : List α) :
    cut sep (a ++ [sep] ++ b) = cut sep (a ++ [sep]) ++ cut sep b := by
  simpa [cut] using cutFrom_append_sep sep a b []

private theorem cutFrom_of_not_mem (sep : α) (a b piece : List α) (h : sep ∉ a) :
    cutFrom sep piece (a ++ sep :: b) = (piece.reverse ++ a) :: cut sep b := by
  induction a generalizing piece with
  | nil => simp [cutFrom, cut]
  | cons c cs ih =>
    have hc : c ≠ sep := fun e => h (by simp [e])
    simp [cutFrom, hc, ih (c :: piece) (fun m => h (by simp [m]))]

/-- A piece without separators, finished by one, is the first piece. -/
theorem cut_cons (sep : α) {a : List α} (b : List α) (h : sep ∉ a) :
    cut sep (a ++ sep :: b) = a :: cut sep b := by
  simpa [cut] using cutFrom_of_not_mem sep a b [] h

private theorem cutFrom_self (sep : α) (a piece : List α) (h : sep ∉ a) (hne : piece ++ a ≠ []) :
    cutFrom sep piece a = [piece.reverse ++ a] := by
  induction a generalizing piece with
  | nil => simpa [cutFrom] using hne
  | cons c cs ih =>
    have hc : c ≠ sep := fun e => h (by simp [e])
    simp [cutFrom, hc, ih (c :: piece) (fun m => h (by simp [m])) (by simp)]

/-- A non-empty list without separators is one unfinished piece. -/
theorem cut_of_not_mem (sep : α) {a : List α} (h : sep ∉ a) (hne : a ≠ []) : cut sep a = [a] := by
  simpa [cut] using cutFrom_self sep a [] h (by simpa using hne)

/-- The list up to its last separator, so without an unfinished piece. -/
def finished (sep : α) (cs : List α) : List α := (cs.reverse.dropWhile (· ≠ sep)).reverse

/-! ## §2: Carriage returns -/

/-- The line without the carriage returns at its end. -/
def dropReturns (line : List Char) : List Char :=
  (line.reverse.dropWhile (· = '\r')).reverse

/-- The line without one carriage return at its end. -/
def dropReturn (line : List Char) : List Char :=
  if line.getLast? = some '\r' then line.dropLast else line

/-- The lines of a text whose last line is finished: a line ends at a line feed, or at a carriage
return and a line feed. -/
def lines (s : String) : List String :=
  (cut '\n' s.toList).map fun line => String.ofList (dropReturn line)

end PathCorpus.Text
