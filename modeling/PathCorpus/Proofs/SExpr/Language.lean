import PathCorpus.Proofs.Ast.InPreOrder
import PathCorpus.Proofs.SExpr.Levels
import PathCorpus.Proofs.SExpr.Reader
import PathCorpus.SExpr.Parse

/-!
# The language of the parser

What parsing does on any text: it accepts the texts of the grammar whose trees are not too deep,
with the tree as an arena in pre-order, and of the texts of the grammar it refuses those alone that
are too deep.

## Main statements

- `parse_eq_ok_iff`: when a text is accepted, and with which tree.
- `parseArena_exact`: the whole of it for the arena.
-/

namespace PathCorpus.SExpr

/-! ## §1: Trees -/

theorem parse_eq_ok_iff {text : List Char} {tree : Ast} :
    parse text = .ok tree ↔ deepestNesting text ≤ maxLevels ∧ IsText text tree := by
  unfold parse
  constructor
  · intro h
    simp only at h
    split at h
    -- a text that nests too deep is refused before it is read
    case isTrue => cases h
    case isFalse hdepth =>
      split at h
      case h_1 tree' hread =>
        obtain rfl : tree' = tree := by simpa using h
        exact ⟨Nat.not_lt.mp hdepth, isText_of_readText hread⟩
      case h_2 => cases h
      case h_3 => cases h
  · rintro ⟨hdepth, htext⟩
    -- the measure of the text bounds the levels of its tree, so that reading is not cut off
    have hread := htext.readText_eq (htext.deepestNesting_eq ▸ hdepth)
    simp only [if_neg (Nat.not_lt.mpr hdepth), hread]

theorem IsText.parse_eq {text : List Char} {tree : Ast} (h : IsText text tree) :
    parse text = if maxLevels < tree.levels then .error (.tooDeep tree.levels) else .ok tree := by
  have hdepth := h.deepestNesting_eq
  split
  case isTrue hdeep => simp only [parse, hdepth, if_pos hdeep]
  case isFalse hdeep => exact parse_eq_ok_iff.mpr ⟨hdepth ▸ Nat.not_lt.mp hdeep, h⟩

theorem IsText.parse_eq_ok {text : List Char} {tree : Ast} (h : IsText text tree)
    (hlevels : tree.levels ≤ maxLevels) : parse text = .ok tree := by
  rw [h.parse_eq, if_neg (Nat.not_lt.mpr hlevels)]

/-! ## §2: Arenas -/

theorem parseArena_eq_ok_iff {text : String} {t : Arena} :
    parseArena text = .ok t ↔ ∃ tree, parse text.toList = .ok tree ∧ tree.inPreOrder = t := by
  unfold parseArena
  cases parse text.toList <;> simp [Except.map]

/-- **The parser accepts exactly its language**, as trees in pre-order, and what the language holds
beyond the limit on levels is refused for its levels. -/
theorem parseArena_exact (text : String) :
    ((∃ t, parseArena text = .ok t) ↔
      deepestNesting text.toList ≤ 1000 ∧ ∃ a, IsText text.toList a) ∧
    (∀ a b, IsText text.toList a → IsText text.toList b → a = b) ∧
    (∀ t, parseArena text = .ok t → ∃ a, IsText text.toList a ∧ t.IsNumbering a) ∧
    ∀ a, IsText text.toList a → deepestNesting text.toList = a.levels ∧
      ∀ depth, parseArena text = .error (.tooDeep depth) ↔ depth = a.levels ∧ 1000 < a.levels := by
  refine ⟨⟨?_, ?_⟩, fun a b => IsText.unique, ?_, fun a ha => ⟨ha.deepestNesting_eq, ?_⟩⟩
  · rintro ⟨t, ht⟩
    obtain ⟨a, ha, _⟩ := parseArena_eq_ok_iff.mp ht
    obtain ⟨hdepth, htext⟩ := parse_eq_ok_iff.mp ha
    exact ⟨hdepth, a, htext⟩
  · rintro ⟨hdepth, a, ha⟩
    exact ⟨a.inPreOrder, parseArena_eq_ok_iff.mpr ⟨a, parse_eq_ok_iff.mpr ⟨hdepth, ha⟩, rfl⟩⟩
  · intro t ht
    obtain ⟨a, ha, rfl⟩ := parseArena_eq_ok_iff.mp ht
    exact ⟨a, (parse_eq_ok_iff.mp ha).2, a.isNumbering_inPreOrder⟩
  · -- the outcome for a text of the grammar is settled by the levels of its tree
    intro depth
    rw [parseArena, ha.parse_eq]
    by_cases hdeep : maxLevels < a.levels
    · rw [if_pos hdeep]
      have hlimit : 1000 < a.levels := hdeep
      simp [Except.map, hlimit, eq_comm]
    · rw [if_neg hdeep]
      have hlimit : ¬ 1000 < a.levels := hdeep
      simp [Except.map, hlimit]

/-- A comment that holds a parenthesis, an empty token and an escape. -/
theorem parseArena_exact_commented :
    ∃ t a, parseArena "; (\n(a \"\" (b \"\\n\"))" = .ok t ∧ t.IsNumbering a ∧
      a = .node "a" (some "") [.node "b" (some "\n") []] ∧
      deepestNesting "; (\n(a \"\" (b \"\\n\"))".toList = a.levels := by
  -- the derivation comes from a reading, which is sound for any bound on the levels
  have hread : readText 2 "; (\n(a \"\" (b \"\\n\"))".toList =
      some (.ok (.node "a" (some "") [.node "b" (some "\n") []])) := by decide +kernel
  have htext := isText_of_readText hread
  obtain ⟨hok, hunique, harena, hlevels⟩ := parseArena_exact "; (\n(a \"\" (b \"\\n\"))"
  obtain ⟨t, ht⟩ := hok.mpr ⟨by decide +kernel, _, htext⟩
  obtain ⟨a, ha, hnumbering⟩ := harena t ht
  obtain rfl := hunique _ _ ha htext
  exact ⟨t, _, ht, hnumbering, rfl, (hlevels _ htext).1⟩

end PathCorpus.SExpr
