import PathCorpus.SExpr.Reading

/-!
# The grammar of S-expressions

The language as it is written down, without saying how it is read:

    text = gap node gap
    node = "(" gap label gap [token gap] (node gap)* ")"

Every part is a relation between a text that starts with the part and the text after it. A
relation may hold for several rests (a gap can be cut anywhere between two spaces), so nothing here
decides which one a reader has to take; that only one choice leads to the end is a theorem of
`SExpr/Reader`.

## Main statements

- `gap_skip`, `Gap.skip_eq`: skipping is a gap, and takes every gap whole.
- `tokenText?_eq_some_iff`: the tokens that are read are those of the grammar.
- `Nodes.solid`: a run of nodes starts where no gap can go on.
-/

namespace PathCorpus.SExpr

/-! ## §1: Gaps -/

/-- A gap before `rest`. A comment goes up to a line feed, which it leaves, or to the end. -/
inductive Gap : (s rest : List Char) → Prop where
  | none (s : List Char) : Gap s s
  | space {c : Char} {s rest : List Char} (hc : isSpace c = true) (h : Gap s rest) :
    Gap (c :: s) rest
  | comment {body s rest : List Char} (hbody : '\n' ∉ body)
    (hend : s = [] ∨ ∃ s', s = '\n' :: s') (h : Gap s rest) : Gap (';' :: (body ++ s)) rest

/-- No gap goes on here: the text is at its end, or at neither a space nor a comment. -/
def Solid (s : List Char) : Prop := ∀ c ∈ s.head?, isSpace c = false ∧ c ≠ ';'

theorem Solid.skip_eq {s : List Char} (h : Solid s) : skip s = s := by
  cases s with
  | nil => rfl
  | cons c s =>
    obtain ⟨hspace, hcomment⟩ := h c rfl
    simp [skip, hspace, hcomment]

theorem skipComment_append {body s : List Char} (hbody : '\n' ∉ body)
    (hend : s = [] ∨ ∃ s', s = '\n' :: s') : skipComment (body ++ s) = skip s := by
  induction body with
  | nil =>
    rcases hend with rfl | ⟨s', rfl⟩
    · rfl
    · have hfeed : isSpace '\n' = true := rfl
      simp [skipComment, skip, hfeed]
  | cons c body ih =>
    rw [List.mem_cons, not_or] at hbody
    simp [skipComment, Ne.symm hbody.1, ih hbody.2]

theorem Gap.skip_eq {s rest : List Char} (h : Gap s rest) : skip s = skip rest := by
  induction h with
  | none => rfl
  | space hc _ ih => simp [skip, hc, ih]
  | comment hbody hend _ ih =>
    -- a semicolon is no space, so the comment is what is skipped first
    have hsemi : isSpace ';' = false := rfl
    simp [skip, hsemi, skipComment_append hbody hend, ih]

theorem Gap.skip_eq_of_solid {s rest : List Char} (h : Gap s rest) (hrest : Solid rest) :
    skip s = rest :=
  h.skip_eq.trans hrest.skip_eq

/-- A comment is some text without a line feed, and then a gap that starts at its end. -/
private theorem exists_comment_end (cs : List Char)
    (hgap : ∀ cs' : List Char, cs'.length ≤ cs.length → Gap cs' (skip cs')) :
    ∃ body s, cs = body ++ s ∧ '\n' ∉ body ∧ (s = [] ∨ ∃ s', s = '\n' :: s') ∧
      Gap s (skipComment cs) := by
  induction cs with
  | nil => exact ⟨[], [], rfl, by simp, .inl rfl, .none _⟩
  | cons c cs ih =>
    by_cases hc : c = '\n'
    · -- the comment ends here, and the line feed is the first space of the gap after it
      subst hc
      refine ⟨[], '\n' :: cs, rfl, by simp, .inr ⟨cs, rfl⟩, ?_⟩
      have hfeed : skipComment ('\n' :: cs) = skip cs := by simp [skipComment]
      rw [hfeed]
      exact .space rfl (hgap cs (by simp))
    · obtain ⟨body, s, rfl, hbody, hend, h⟩ := ih fun cs' hcs' => hgap cs' (by
        rw [List.length_cons]
        omega)
      refine ⟨c :: body, s, rfl, ?_, hend, ?_⟩
      · simp [hbody, Ne.symm hc]
      · simpa [skipComment, hc] using h

theorem gap_skip (s : List Char) : Gap s (skip s) := by
  -- a comment is left at a place that is no subterm, so the induction is on the length
  induction hlen : s.length using Nat.strongRecOn generalizing s with
  | _ n ih =>
    subst hlen
    cases s with
    | nil => exact .none []
    | cons c s =>
      have hshorter : ∀ s' : List Char, s'.length ≤ s.length → Gap s' (skip s') :=
        fun s' hs' => ih s'.length (by rw [List.length_cons]; omega) s' rfl
      simp only [skip]
      split
      case isTrue hspace => exact .space hspace (hshorter s (Nat.le_refl _))
      case isFalse hspace =>
        split
        case isTrue hsemi =>
          subst hsemi
          obtain ⟨body, s', rfl, hbody, hend, h⟩ := exists_comment_end s hshorter
          exact .comment hbody hend h
        case isFalse => exact .none _

/-! ## §2: Labels -/

/-- A label before `rest`, taken as long as it goes. -/
structure IsLabel (s label rest : List Char) : Prop where
  text : s = label ++ rest
  nonempty : label ≠ []
  chars : ∀ c ∈ label, isLabelChar c = true
  maximal : ∀ c ∈ rest.head?, isLabelChar c = false

theorem isLabel_takeWhile {s : List Char} (h : s.takeWhile isLabelChar ≠ []) :
    IsLabel s (s.takeWhile isLabelChar) (s.dropWhile isLabelChar) where
  text := List.takeWhile_append_dropWhile.symm
  nonempty := h
  chars := List.all_eq_true.mp List.all_takeWhile
  maximal := by
    intro c hc
    have := List.head?_dropWhile_not isLabelChar s
    rw [Option.mem_def] at hc
    simpa [hc] using this

theorem IsLabel.takeWhile_eq {s label rest : List Char} (h : IsLabel s label rest) :
    s.takeWhile isLabelChar = label ∧ s.dropWhile isLabelChar = rest := by
  rw [h.text, List.takeWhile_append_of_pos h.chars, List.dropWhile_append_of_pos h.chars]
  -- what is left to show is that the label does not go on into `rest`
  cases hrest : rest with
  | nil => simp
  | cons c rest' =>
    have hstop : isLabelChar c = false := h.maximal c (by simp [hrest])
    simp [hstop]

theorem IsLabel.solid {s label rest : List Char} (h : IsLabel s label rest) : Solid s := by
  intro c hc
  -- a label starts the text, and its characters are neither spaces nor semicolons
  have hmem : c ∈ label := by
    rw [h.text] at hc
    cases hl : label with
    | nil => exact absurd hl h.nonempty
    | cons d label => simp_all
  have := h.chars c hmem
  simp [isLabelChar] at this
  simp [this]

/-! ## §3: Tokens -/

/-- The letters after a backslash, each with the character it stands for. -/
def escapes : List (Char × Char) :=
  [('"', '"'), ('\\', '\\'), ('n', '\n'), ('t', '\t'), ('r', '\r')]

theorem ofEscape?_eq_some_iff {e c : Char} : ofEscape? e = some c ↔ (e, c) ∈ escapes := by
  unfold ofEscape? escapes
  split <;> simp_all [eq_comm]

/-- The text written between quotation marks, and the text it means. -/
inductive Spells : (written meant : List Char) → Prop where
  | nil : Spells [] []
  | plain {c : Char} {written meant : List Char} (hquote : c ≠ '"') (hslash : c ≠ '\\')
    (h : Spells written meant) : Spells (c :: written) (c :: meant)
  | escape {e c : Char} {written meant : List Char} (he : (e, c) ∈ escapes)
    (h : Spells written meant) : Spells ('\\' :: e :: written) (c :: meant)

/-- A token before `rest`. -/
def IsToken (s meant rest : List Char) : Prop :=
  ∃ written, Spells written meant ∧ s = '"' :: (written ++ '"' :: rest)

theorem IsToken.solid {s meant rest : List Char} (h : IsToken s meant rest) : Solid s := by
  obtain ⟨written, _, rfl⟩ := h
  simp [Solid, isSpace]

theorem Spells.tokenText?_append {written meant : List Char} (h : Spells written meant)
    (rest : List Char) : tokenText? (written ++ '"' :: rest) = some (meant, rest) := by
  induction h with
  | nil => rfl
  | plain hquote hslash _ ih => simp [tokenText?, ih]
  | escape he _ ih => simp [tokenText?, ofEscape?_eq_some_iff.mpr he, ih]

theorem tokenText?_eq_some_iff {s meant rest : List Char} :
    tokenText? s = some (meant, rest) ↔
      ∃ written, Spells written meant ∧ s = written ++ '"' :: rest := by
  constructor
  · intro h
    -- the cases of the reader are the rules of the grammar, but for those without an answer
    fun_induction tokenText? s generalizing meant with
    | case1 => cases h
    | case2 cs =>
      obtain ⟨rfl, rfl⟩ : [] = meant ∧ cs = rest := by simpa using h
      exact ⟨[], .nil, rfl⟩
    | case3 => cases h
    | case4 e cs c text rest' hr he ih =>
      obtain ⟨rfl, rfl⟩ : c :: text = meant ∧ rest' = rest := by simpa using h
      obtain ⟨written, hw, rfl⟩ := ih hr
      exact ⟨'\\' :: e :: written, .escape (ofEscape?_eq_some_iff.mp he) hw, rfl⟩
    | case5 => cases h
    | case6 c cs hquote hslash text rest' hr ih =>
      obtain ⟨rfl, rfl⟩ : c :: text = meant ∧ rest' = rest := by simpa using h
      obtain ⟨written, hw, rfl⟩ := ih hr
      exact ⟨c :: written, .plain hquote hslash hw, rfl⟩
    | case7 => cases h
  · rintro ⟨written, hw, rfl⟩
    exact hw.tokenText?_append rest

theorem token?_eq_some_iff {s meant rest : List Char} :
    token? s = some (meant, rest) ↔ IsToken s meant rest := by
  unfold token? IsToken
  split
  case h_1 cs => simp [tokenText?_eq_some_iff]
  case h_2 hs =>
    constructor
    · intro h
      cases h
    · rintro ⟨written, _, rfl⟩
      exact absurd rfl (hs _)

/-! ## §4: Nodes and texts -/

/-- The token of a node and the gap after it, or nothing. -/
inductive OptionalToken : (s : List Char) → (token? : Option String) → (rest : List Char) →
    Prop where
  | absent (s : List Char) : OptionalToken s .none s
  | present {s meant s' rest : List Char} (htoken : IsToken s meant s') (hgap : Gap s' rest) :
    OptionalToken s (some (String.ofList meant)) rest

/-- What comes between the parenthesis that opens a node and its first child. -/
inductive Heading : (s : List Char) → (label : String) → (token? : Option String) →
    (rest : List Char) → Prop where
  | intro {s s₁ s₂ s₃ label rest : List Char} {token? : Option String} (hgap : Gap s s₁)
    (hlabel : IsLabel s₁ label s₂) (hgap' : Gap s₂ s₃) (htoken : OptionalToken s₃ token? rest) :
    Heading s (String.ofList label) token? rest

mutual

/-- A node before `rest`, and the tree it stands for. -/
inductive IsNode : (s : List Char) → (tree : Ast) → (rest : List Char) → Prop where
  | intro {s s' rest : List Char} {label : String} {token? : Option String} {trees : List Ast}
    (heading : Heading s label token? s') (children : Nodes s' trees (')' :: rest)) :
    IsNode ('(' :: s) (.node label token? trees) rest

/-- Nodes before `rest`, each with a gap after it. -/
inductive Nodes : (s : List Char) → (trees : List Ast) → (rest : List Char) → Prop where
  | nil (s : List Char) : Nodes s [] s
  | cons {s s₁ s₂ rest : List Char} {tree : Ast} {trees : List Ast} (first : IsNode s tree s₁)
    (hgap : Gap s₁ s₂) (others : Nodes s₂ trees rest) : Nodes s (tree :: trees) rest

end

/-- A whole text, and the tree it stands for. -/
def IsText (text : List Char) (tree : Ast) : Prop :=
  ∃ s rest, Gap text s ∧ IsNode s tree rest ∧ Gap rest []

/-! ## §5: Where parts start -/

/-- A node starts with its parenthesis. -/
theorem IsNode.exists_cons {s rest : List Char} {tree : Ast} (h : IsNode s tree rest) :
    ∃ s', s = '(' :: s' := by
  cases h with
  | intro => exact ⟨_, rfl⟩

theorem IsNode.solid {s rest : List Char} {tree : Ast} (h : IsNode s tree rest) : Solid s := by
  obtain ⟨s', rfl⟩ := h.exists_cons
  simp [Solid, isSpace]

/-- The text is at its end or at a closing parenthesis. -/
def Closed (s : List Char) : Prop := ∀ c ∈ s.head?, c = ')'

theorem solid_of_parenthesis {s : List Char} (h : ∀ c ∈ s.head?, c = '(' ∨ c = ')') :
    Solid s := by
  intro c hc
  rcases h c hc with rfl | rfl <;> exact ⟨rfl, by decide⟩

/-- Nodes up to a closing parenthesis: the text starts with a parenthesis or has ended. -/
theorem Nodes.parenthesis {s rest : List Char} {trees : List Ast} (h : Nodes s trees rest)
    (hrest : Closed rest) : ∀ c ∈ s.head?, c = '(' ∨ c = ')' := by
  intro c hc
  cases h with
  | nil => exact .inr (hrest c hc)
  | cons first =>
    -- the first node opens with a parenthesis of its own
    obtain ⟨s', rfl⟩ := first.exists_cons
    exact .inl (by simpa using hc.symm)

theorem Nodes.solid {s rest : List Char} {trees : List Ast} (h : Nodes s trees rest)
    (hrest : Closed rest) : Solid s :=
  solid_of_parenthesis (h.parenthesis hrest)

end PathCorpus.SExpr
