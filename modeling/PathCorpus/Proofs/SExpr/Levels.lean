import PathCorpus.Proofs.SExpr.Grammar
import PathCorpus.SExpr.Nesting

/-!
# Nesting and levels

The pass that measures a text and the grammar agree on where tokens and comments start and end, on
every text that the grammar derives. Each part of the grammar moves the pass from one state outside
tokens and comments to another, and only nodes change the numbers it keeps. Hence the nesting of a
text is the number of levels of its tree.

## Main statements

- `IsNode.deepestFrom`: what the pass makes of a node.
- `IsText.deepestNesting_eq`: the nesting of a text is the number of levels of its tree.
-/

namespace PathCorpus.SExpr

namespace Nesting

/-! ## §1: Going on with the pass -/

/-- The deepest nesting once the pass has gone on over `s`. -/
def deepestFrom (n : Nesting) (s : List Char) : Nat := (s.foldl step n).deepest

@[simp] theorem deepestFrom_cons (n : Nesting) (c : Char) (s : List Char) :
    n.deepestFrom (c :: s) = (n.step c).deepestFrom s := rfl

/-- The state after a part that opens at most `k` more parentheses at once and closes them all. -/
def dip (n : Nesting) (k : Nat) : Nesting := { n with deepest := max n.deepest (n.depth + k) }

theorem dip_zero {n : Nesting} (h : n.depth ≤ n.deepest) : n.dip 0 = n := by
  simp [dip, Nat.max_eq_left h]

theorem dip_dip (n : Nesting) (j k : Nat) : (n.dip j).dip k = n.dip (max j k) := by
  have hmax : max (max n.deepest (n.depth + j)) (n.depth + k) =
      max n.deepest (n.depth + max j k) := by omega
  simp [dip, hmax]

theorem depth_le_dip {n : Nesting} (k : Nat) : (n.dip k).depth ≤ (n.dip k).deepest := by
  simp only [dip]
  omega

/-- The state after an opening parenthesis. -/
def opened (n : Nesting) : Nesting :=
  { n with depth := n.depth + 1, deepest := max n.deepest (n.depth + 1) }

theorem step_open {n : Nesting} (h : n.region = .outside) : n.step '(' = n.opened := by
  simp [step, h, opened]

/-- Opening, going down by `k` more and closing again is going down by `k + 1`. -/
theorem step_close_dip_opened {n : Nesting} (h : n.region = .outside) (k : Nat) :
    (n.opened.dip k).step ')' = n.dip (k + 1) := by
  have hmax : max (max n.deepest (n.depth + 1)) (n.depth + 1 + k) =
      max n.deepest (n.depth + (k + 1)) := by omega
  simp [step, opened, dip, h, hmax]

/-! ## §2: Characters that change nothing -/

theorem step_of_space {n : Nesting} (h : n.region = .outside) {c : Char} (hc : isSpace c = true) :
    n.step c = n := by
  simp only [isSpace, Bool.or_eq_true, decide_eq_true_eq] at hc
  rcases hc with ((rfl | rfl) | rfl) | rfl <;> simp [step, h]

theorem step_of_labelChar {n : Nesting} (h : n.region = .outside) {c : Char}
    (hc : isLabelChar c = true) : n.step c = n := by
  simp only [isLabelChar, Bool.not_eq_true', Bool.or_eq_false_iff, decide_eq_false_iff_not] at hc
  obtain ⟨⟨⟨⟨_, hopen⟩, hclose⟩, hquote⟩, hsemi⟩ := hc
  simp [step, h, hopen, hclose, hquote, hsemi]

theorem foldl_step_label {n : Nesting} (h : n.region = .outside) {label : List Char}
    (hlabel : ∀ c ∈ label, isLabelChar c = true) : label.foldl step n = n := by
  induction label with
  | nil => rfl
  | cons c label ih =>
    rw [List.forall_mem_cons] at hlabel
    rw [List.foldl_cons, step_of_labelChar h hlabel.1, ih hlabel.2]

theorem foldl_step_comment {n : Nesting} (h : n.region = .comment) {body : List Char}
    (hbody : '\n' ∉ body) : body.foldl step n = n := by
  induction body with
  | nil => rfl
  | cons c body ih =>
    rw [List.mem_cons, not_or] at hbody
    have hc : n.step c = n := by simp [step, h, Ne.symm hbody.1]
    rw [List.foldl_cons, hc, ih hbody.2]

theorem foldl_step_spells {n : Nesting} (h : n.region = .token) {written meant : List Char}
    (hspells : Spells written meant) : written.foldl step n = n := by
  induction hspells with
  | nil => rfl
  | @plain c written meant hquote hslash _ ih =>
    -- only a quotation mark or a backslash would move the pass on
    have hc : n.step c = n := by simp [step, h, hquote, hslash]
    rw [List.foldl_cons, hc, ih]
  | @escape e c written meant _ _ ih =>
    -- whatever the letter is, after it the pass is in the token again
    have he : (n.step '\\').step e = n := by
      cases n
      simp_all [step]
    rw [List.foldl_cons, List.foldl_cons, he, ih]

end Nesting

/-! ## §3: Parts without parentheses -/

variable {s rest : List Char} {n : Nesting}

/-- A gap changes nothing, except that a comment may be open at the end of the text. -/
theorem Gap.deepestFrom (h : Gap s rest) (hn : n.region = .outside) :
    n.deepestFrom s = n.deepestFrom rest := by
  induction h with
  | none => rfl
  | space hc _ ih => rw [Nesting.deepestFrom_cons, Nesting.step_of_space hn hc, ih]
  | @comment body s rest hbody hend hgap ih =>
    have hin : n.step ';' = { n with region := .comment } := by simp [Nesting.step, hn]
    have hover : Nesting.deepestFrom { n with region := .comment } (body ++ s) =
        Nesting.deepestFrom { n with region := .comment } s := by
      rw [Nesting.deepestFrom, List.foldl_append, Nesting.foldl_step_comment rfl hbody]
      rfl
    rw [Nesting.deepestFrom_cons, hin, hover, ← ih]
    rcases hend with rfl | ⟨s', rfl⟩
    · rfl
    · -- the line feed ends the comment, and is a space outside of it
      have hfeed : Nesting.step { n with region := .comment } '\n' = n := by
        simp [Nesting.step, ← hn]
      rw [Nesting.deepestFrom_cons, Nesting.deepestFrom_cons, hfeed, Nesting.step_of_space hn rfl]

theorem IsLabel.deepestFrom {label : List Char} (h : IsLabel s label rest)
    (hn : n.region = .outside) : n.deepestFrom s = n.deepestFrom rest := by
  rw [h.text]
  unfold Nesting.deepestFrom
  rw [List.foldl_append, Nesting.foldl_step_label hn h.chars]

theorem IsToken.deepestFrom {meant : List Char} (h : IsToken s meant rest)
    (hn : n.region = .outside) : n.deepestFrom s = n.deepestFrom rest := by
  obtain ⟨written, hspells, rfl⟩ := h
  have hin : n.step '"' = { n with region := .token } := by simp [Nesting.step, hn]
  have hout : Nesting.step { n with region := .token } '"' = n := by simp [Nesting.step, ← hn]
  rw [Nesting.deepestFrom_cons, hin, Nesting.deepestFrom, List.foldl_append,
    Nesting.foldl_step_spells rfl hspells, List.foldl_cons, hout]
  rfl

theorem Heading.deepestFrom {label : String} {token? : Option String}
    (h : Heading s label token? rest) (hn : n.region = .outside) :
    n.deepestFrom s = n.deepestFrom rest := by
  obtain ⟨hgap, hlabel, hgap', htoken⟩ := h
  rw [hgap.deepestFrom hn, hlabel.deepestFrom hn, hgap'.deepestFrom hn]
  cases htoken with
  | absent => rfl
  | present htoken hgap₄ => rw [htoken.deepestFrom hn, hgap₄.deepestFrom hn]

/-! ## §4: Nodes -/

mutual

theorem IsNode.deepestFrom {s rest : List Char} {tree : Ast} {n : Nesting} (h : IsNode s tree rest)
    (hn : n.region = .outside) : n.deepestFrom s = (n.dip tree.levels).deepestFrom rest := by
  match h with
  | @IsNode.intro s s' rest label token? trees heading children =>
    -- past the parenthesis the pass is outside of tokens again, one deeper than before
    have hopened : n.opened.region = .outside := hn
    have hle : n.opened.depth ≤ n.opened.deepest := Nat.le_max_right _ _
    rw [Nesting.deepestFrom_cons, Nesting.step_open hn, heading.deepestFrom hopened,
      children.deepestFrom hopened hle, Nesting.deepestFrom_cons,
      Nesting.step_close_dip_opened hn, Ast.levels]

/-- The trees of a run lie beside each other, so the deepest of them decides. -/
theorem Nodes.deepestFrom {s rest : List Char} {trees : List Ast} {n : Nesting}
    (h : Nodes s trees rest) (hn : n.region = .outside) (hle : n.depth ≤ n.deepest) :
    n.deepestFrom s = (n.dip (Ast.levelsAll trees)).deepestFrom rest := by
  match h with
  | .nil s => rw [Ast.levelsAll, Nesting.dip_zero hle]
  | @Nodes.cons s s₁ s₂ rest tree trees first hgap others =>
    -- the first tree leaves the depth as it was, so the others start at the same depth
    have hdip : (n.dip tree.levels).region = .outside := hn
    rw [first.deepestFrom hn, hgap.deepestFrom hdip,
      others.deepestFrom hdip (Nesting.depth_le_dip _), Nesting.dip_dip, Ast.levelsAll]

end

theorem IsText.deepestNesting_eq {text : List Char} {tree : Ast} (h : IsText text tree) :
    deepestNesting text = tree.levels := by
  obtain ⟨s, rest, hbefore, hnode, hafter⟩ := h
  calc deepestNesting text
      = Nesting.deepestFrom {} text := rfl
    _ = Nesting.deepestFrom {} s := hbefore.deepestFrom rfl
    _ = (Nesting.dip {} tree.levels).deepestFrom rest := hnode.deepestFrom rfl
    _ = (Nesting.dip {} tree.levels).deepestFrom [] := hafter.deepestFrom rfl
    _ = tree.levels := by simp [Nesting.deepestFrom, Nesting.dip]

end PathCorpus.SExpr
