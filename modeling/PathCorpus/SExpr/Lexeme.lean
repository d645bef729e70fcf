/-!
# The smallest parts of an S-expression

Gaps, labels and tokens. A *gap* is any run of spaces and comments; a comment goes from `;` up to
the end of its line. A *label* is a longest run of characters that mean nothing else. A *token* is
text between quotation marks, where a quotation mark, a backslash, a line feed, a tab and a
carriage return can be written as escapes and no other escape exists.

Main statements: `length_skip_le` and `length_tokenText?_lt`, reading a part leaves less text.
-/

namespace PathCorpus.SExpr

/-! ## §1: Character classes -/

/-- The characters that separate parts: space, tab, carriage return and line feed. -/
def isSpace (c : Char) : Bool := c = ' ' || c = '\t' || c = '\r' || c = '\n'

/-- The characters a label is made of: all but spaces, parentheses, quotation marks and
semicolons. -/
def isLabelChar (c : Char) : Bool := !(isSpace c || c = '(' || c = ')' || c = '"' || c = ';')

/-! ## §2: Gaps -/

mutual

/-- The text after a gap. -/
def skip : List Char → List Char
  | [] => []
  | c :: cs => if isSpace c then skip cs else if c = ';' then skipComment cs else c :: cs

/-- The text after the rest of a comment and the gap that follows it. -/
def skipComment : List Char → List Char
  | [] => []
  | c :: cs => if c = '\n' then skip cs else skipComment cs

end

mutual

/-- A gap is not longer than the text it starts. -/
theorem length_skip_le : (s : List Char) → (skip s).length ≤ s.length
  | [] => by simp [skip]
  | c :: cs => by
    have h := length_skip_le cs
    have hc := length_skipComment_le cs
    simp only [skip]
    split
    · simp only [List.length_cons]; omega
    · split <;> simp only [List.length_cons] <;> omega

/-- A comment is not longer than the text it starts. -/
theorem length_skipComment_le : (s : List Char) → (skipComment s).length ≤ s.length
  | [] => by simp [skipComment]
  | c :: cs => by
    have h := length_skip_le cs
    have hc := length_skipComment_le cs
    simp only [skipComment]
    split <;> simp only [List.length_cons] <;> omega

end

/-! ## §3: Tokens -/

/-- The character that a letter after a backslash stands for. -/
def ofEscape? : Char → Option Char
  | '"' => some '"'
  | '\\' => some '\\'
  | 'n' => some '\n'
  | 't' => some '\t'
  | 'r' => some '\r'
  | _ => none

/-- The text of a token whose opening quotation mark has been read, and what follows its closing
one. None if there is no closing one, or an escape that does not exist before it. -/
def tokenText? : List Char → Option (List Char × List Char)
  | [] => none
  | '"' :: cs => some ([], cs)
  | '\\' :: cs =>
    match cs with
    | [] => none
    | e :: cs =>
      match ofEscape? e, tokenText? cs with
      | some c, some (text, rest) => some (c :: text, rest)
      | _, _ => none
  | c :: cs =>
    match tokenText? cs with
    | some (text, rest) => some (c :: text, rest)
    | none => none

/-- A token takes at least its closing quotation mark. -/
theorem length_tokenText?_lt {s text rest : List Char} (h : tokenText? s = some (text, rest)) :
    rest.length < s.length := by
  fun_induction tokenText? s generalizing text with
  | case1 => simp at h
  | case2 => simp at h; simp [h]
  | case3 => simp at h
  | case4 e cs c t r hr he ih =>
    simp only [Option.some.injEq, Prod.mk.injEq] at h
    have := ih (h.2 ▸ hr)
    simp only [List.length_cons]
    omega
  | case5 => simp at h
  | case6 c cs _ _ t r hr ih =>
    simp only [Option.some.injEq, Prod.mk.injEq] at h
    have := ih (h.2 ▸ hr)
    simp only [List.length_cons]
    omega
  | case7 => simp at h

/-- The text of a token, and what follows it. -/
def token? : List Char → Option (List Char × List Char)
  | '"' :: cs => tokenText? cs
  | _ => none

theorem length_token?_lt {s text rest : List Char} (h : token? s = some (text, rest)) :
    rest.length < s.length := by
  unfold token? at h
  split at h
  · have := length_tokenText?_lt h
    simp only [List.length_cons]
    omega
  · simp at h

end PathCorpus.SExpr
