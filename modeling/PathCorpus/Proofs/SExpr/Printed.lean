import PathCorpus.Proofs.SExpr.Language
import PathCorpus.SExpr.Printer

/-!
# Printed trees

The text that a tree is printed as is one of the grammar, and it stands for the tree, provided
that the labels can be written at all. About tokens nothing has to be known: whatever a token
holds, it is spelled with the escapes that are taken back when it is read. A printed tree stays
on one line and ends in its parenthesis, so that what reads lines leaves it whole.

## Main statements

- `spells_escape`: every token is spelled by its escaped form.
- `isText_print`: what a printed tree stands for.
- `newline_notMem_print`, `getLast?_print`: how a printed tree lies on its line.
-/

namespace PathCorpus

/-! ## §1: Labels -/

mutual

/-- The labels of a tree, each node before its children. -/
def Ast.labels : Ast → List String
  | .node label _ children => label :: Ast.labelsAll children

/-- The labels of several trees. -/
def Ast.labelsAll : List Ast → List String
  | [] => []
  | a :: as => Ast.labels a ++ Ast.labelsAll as

end

namespace SExpr

/-- A label that can be written. -/
def IsTypeLabel (label : String) : Prop :=
  label ≠ "" ∧ ∀ c ∈ label.toList, c ∉ [' ', '\t', '\r', '\n', '(', ')', '"', ';']

-- the characters of the label are gone through, not all characters there are
instance (label : String) : Decidable (IsTypeLabel label) :=
  @instDecidableAnd _ _ inferInstance (List.decidableBAll _ _)

theorem isLabelChar_iff {c : Char} :
    isLabelChar c = true ↔ c ∉ [' ', '\t', '\r', '\n', '(', ')', '"', ';'] := by
  simp [isLabelChar, isSpace, and_assoc]

theorem IsTypeLabel.isLabel {label : String} (h : IsTypeLabel label) {rest : List Char}
    (hrest : ∀ c ∈ rest.head?, isLabelChar c = false) :
    IsLabel (label.toList ++ rest) label.toList rest where
  text := rfl
  nonempty := mt String.toList_eq_nil_iff.mp h.1
  chars c hc := isLabelChar_iff.mpr (h.2 c hc)
  maximal := hrest

theorem IsTypeLabel.newline_notMem {label : String} (h : IsTypeLabel label) :
    '\n' ∉ label.toList := by
  intro hmem
  exact h.2 _ hmem (by decide)

/-! ## §2: Tokens -/

/-- The escapes of a token are those that reading takes back. -/
theorem spells_escape (cs : List Char) : Spells (cs.flatMap escapeTokenChar) cs := by
  induction cs with
  | nil => exact .nil
  | cons c cs ih =>
    rw [List.flatMap_cons]
    unfold escapeTokenChar
    split
    case h_6 hquote hslash _ _ _ => exact .plain hquote hslash ih
    all_goals exact .escape (by decide) ih

theorem isToken_printToken (token : String) (rest : List Char) :
    IsToken (printToken token ++ rest) token.toList rest :=
  ⟨_, spells_escape token.toList, by simp [printToken]⟩

theorem newline_notMem_printToken (token : String) : '\n' ∉ printToken token := by
  have hchar : ∀ c, '\n' ∉ escapeTokenChar c := by
    intro c
    unfold escapeTokenChar
    split <;> simp_all [eq_comm]
  simp [printToken, hchar]

/-- A token with the space before it, or nothing. -/
def printToken? : Option String → List Char
  | some token => ' ' :: printToken token
  | none => []

theorem newline_notMem_printToken? (token? : Option String) : '\n' ∉ printToken? token? := by
  cases token? with
  | none => simp [printToken?]
  | some token => simp [printToken?, newline_notMem_printToken]

/-! ## §3: Trees -/

theorem print_node (label : String) (token? : Option String) (children : List Ast) :
    print (.node label token? children) =
      '(' :: (label.toList ++ (printToken? token? ++ (printAll children ++ [')']))) := by
  cases token? <;> simp [print, printToken?]

/-- What comes after a label in a printed tree ends the label. -/
theorem isLabelChar_head?_printAll (as : List Ast) (rest : List Char) :
    ∀ c ∈ (printAll as ++ ')' :: rest).head?, isLabelChar c = false := by
  cases as with
  | nil => simp [printAll, isLabelChar]
  | cons a as => simp [printAll, isLabelChar, isSpace]

/-- The part of a printed tree up to its first child. -/
theorem heading_print {label : String} (hlabel : IsTypeLabel label) (token? : Option String)
    {s rest : List Char} (hend : ∀ c ∈ s.head?, isLabelChar c = false) (hgap : Gap s rest) :
    Heading (label.toList ++ (printToken? token? ++ s)) label token? rest := by
  have hheading : Heading (label.toList ++ (printToken? token? ++ s)) (String.ofList label.toList)
      token? rest := by
    cases token? with
    | none => exact .intro (.none _) (hlabel.isLabel hend) hgap (.absent rest)
    | some token =>
      -- the space ends the label and is the gap before the token
      have hstop : ∀ c ∈ (printToken? (some token) ++ s).head?, isLabelChar c = false := by
        simp [printToken?, isLabelChar, isSpace]
      have htoken := OptionalToken.present (isToken_printToken token s) hgap
      rw [String.ofList_toList] at htoken
      exact .intro (.none _) (hlabel.isLabel hstop) (.space rfl (.none _)) htoken
  rwa [String.ofList_toList] at hheading

mutual

theorem isNode_print : (a : Ast) → (∀ label ∈ a.labels, IsTypeLabel label) → (rest : List Char) →
    IsNode (print a ++ rest) a rest
  | .node label token? children, h, rest => by
    rw [Ast.labels, List.forall_mem_cons] at h
    obtain ⟨s, hgap, hnodes⟩ := exists_nodes_printAll children h.2 rest
    have hheading := heading_print h.1 token? (isLabelChar_head?_printAll children rest) hgap
    rw [print_node]
    simpa using IsNode.intro hheading hnodes

/-- The space before a child is the gap after what comes before it. -/
theorem exists_nodes_printAll : (as : List Ast) → (∀ label ∈ Ast.labelsAll as, IsTypeLabel label) →
    (rest : List Char) →
    ∃ s, Gap (printAll as ++ ')' :: rest) s ∧ Nodes s as (')' :: rest)
  | [], _, rest => ⟨_, .none _, .nil _⟩
  | a :: as, h, rest => by
    rw [Ast.labelsAll, List.forall_mem_append] at h
    obtain ⟨s, hgap, hnodes⟩ := exists_nodes_printAll as h.2 rest
    have hfirst := isNode_print a h.1 (printAll as ++ ')' :: rest)
    refine ⟨_, ?_, .cons hfirst hgap hnodes⟩
    rw [printAll, List.cons_append, List.cons_append, List.append_assoc]
    exact .space rfl (.none _)

end

theorem isText_print {a : Ast} (h : ∀ label ∈ a.labels, IsTypeLabel label) :
    IsText (print a) a := by
  have hnode := isNode_print a h []
  rw [List.append_nil] at hnode
  exact ⟨_, _, .none _, hnode, .none _⟩

/-! ## §4: One line -/

mutual

theorem newline_notMem_print : (a : Ast) → (∀ label ∈ a.labels, IsTypeLabel label) →
    '\n' ∉ print a
  | .node label token? children, h => by
    rw [Ast.labels, List.forall_mem_cons] at h
    have hlabel := h.1.newline_notMem
    have hchildren := newline_notMem_printAll children h.2
    rw [print_node]
    simp [hlabel, hchildren, newline_notMem_printToken?]

theorem newline_notMem_printAll : (as : List Ast) →
    (∀ label ∈ Ast.labelsAll as, IsTypeLabel label) → '\n' ∉ printAll as
  | [], _ => by simp [printAll]
  | a :: as, h => by
    rw [Ast.labelsAll, List.forall_mem_append] at h
    simp [printAll, newline_notMem_print a h.1, newline_notMem_printAll as h.2]

end

theorem getLast?_print (a : Ast) : (print a).getLast? = some ')' := by
  cases a with
  | node label token? children =>
    simp only [print_node, ← List.cons_append, ← List.append_assoc, List.getLast?_concat]

end SExpr

end PathCorpus
