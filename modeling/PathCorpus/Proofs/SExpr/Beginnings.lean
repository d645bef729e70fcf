import PathCorpus.Proofs.SExpr.Unbounded

/-!
# Beginnings of texts

What a reader has read of a text stays what it is whatever comes after it, as long as the last
part of it does not go on into that. A label goes on into more of its characters, and a comment
into anything but a line feed. A comment can be the last thing read only at the end of a text,
since a reader skips it whole. So a text is cut here into what was read and the rest, and to put
something else in the place of the rest is to end the comment first, if there is one.

Whether a text ends in a comment is told by the pass that measures its nesting.

## Main statements

- `Cut.trans`, `Cut.endComment_append`: cuts behind one another.
- `exists_cut_skip`, `exists_cut_head`: gaps and headings that were read, before any other text.
- `exists_cut_found_and_run`: nodes that were found, before any other text.
-/

namespace PathCorpus

namespace SExpr

variable {s p q mid rest : List Char}

/-! ## §1: Regions -/

/-- What the next character belongs to after this one. It does not depend on how deep it stands. -/
def Region.next : Region → (c : Char) → Region
  | .outside, c => if c = '"' then .token else if c = ';' then .comment else .outside
  | .token, c => if c = '\\' then .escaped else if c = '"' then .outside else .token
  | .escaped, _ => .token
  | .comment, c => if c = '\n' then .outside else .comment

namespace Nesting

theorem region_step (n : Nesting) (c : Char) : (n.step c).region = n.region.next c := by
  cases hregion : n.region with
  | outside =>
    simp only [step, hregion, Region.next]
    split
    next hc => simp [hc]
    next =>
      split
      next hc => simp [hc]
      next => grind
  | token =>
    simp only [step, hregion, Region.next]
    grind
  | escaped => simp only [step, hregion, Region.next]
  | comment =>
    simp only [step, hregion, Region.next]
    grind

theorem region_foldl_step (n : Nesting) (s : List Char) :
    (s.foldl step n).region = s.foldl Region.next n.region := by
  induction s generalizing n with
  | nil => rfl
  | cons c s ih => rw [List.foldl_cons, ih, region_step, List.foldl_cons]

end Nesting

/-- The text ends outside tokens and comments. -/
def Outside (p : List Char) : Prop := (Nesting.scan p).region = .outside

/-- The text ends in a comment. -/
def InComment (p : List Char) : Prop := (Nesting.scan p).region = .comment

instance (p : List Char) : Decidable (InComment p) :=
  inferInstanceAs (Decidable ((Nesting.scan p).region = .comment))

theorem Outside.region_append (hp : Outside p) (q : List Char) :
    (Nesting.scan (p ++ q)).region = (Nesting.scan q).region := by
  have hstart : (Nesting.scan p).region = Nesting.region {} := hp
  rw [Nesting.scan, List.foldl_append, Nesting.region_foldl_step, ← Nesting.scan, hstart,
    ← Nesting.region_foldl_step, ← Nesting.scan]

theorem Outside.append (hp : Outside p) (hq : Outside q) : Outside (p ++ q) :=
  (hp.region_append q).trans hq

theorem Outside.inComment_append_iff (hp : Outside p) : InComment (p ++ q) ↔ InComment q := by
  rw [InComment, hp.region_append, InComment]

theorem Outside.not_inComment (hp : Outside p) : ¬ InComment p := by
  rw [InComment, show (Nesting.scan p).region = .outside from hp]
  decide

theorem outside_nil : Outside [] := rfl

theorem outside_open : Outside ['('] := rfl

theorem outside_close : Outside [')'] := rfl

theorem outside_space {c : Char} (hc : isSpace c = true) : Outside [c] := by
  rw [Outside, Nesting.scan, List.foldl_cons, Nesting.step_of_space rfl hc]
  rfl

theorem outside_label {label : List Char} (h : ∀ c ∈ label, isLabelChar c = true) :
    Outside label := by
  rw [Outside, Nesting.scan, Nesting.foldl_step_label rfl h]

theorem inComment_comment {body : List Char} (h : '\n' ∉ body) : InComment (';' :: body) := by
  rw [InComment, Nesting.scan, List.foldl_cons, Nesting.foldl_step_comment rfl h]
  rfl

theorem outside_comment {body : List Char} (h : '\n' ∉ body) : Outside (';' :: body ++ ['\n']) := by
  rw [Outside, Nesting.scan, List.cons_append, List.foldl_cons, List.foldl_append,
    Nesting.foldl_step_comment rfl h]
  rfl

theorem outside_token {written meant : List Char} (h : Spells written meant) :
    Outside ('"' :: written ++ ['"']) := by
  rw [Outside, Nesting.scan, List.cons_append, List.foldl_cons, List.foldl_append,
    Nesting.foldl_step_spells rfl h]
  rfl

/-! ## §2: Cuts -/

/-- The text with a line feed after it if it ends in a comment. -/
def endComment (p : List Char) : List Char := if InComment p then p ++ ['\n'] else p

theorem Outside.endComment_eq (hp : Outside p) : endComment p = p := if_neg hp.not_inComment

theorem Outside.endComment_append (hp : Outside p) (q : List Char) :
    endComment (p ++ q) = p ++ endComment q := by
  unfold endComment
  rw [List.append_assoc p q]
  split
  next h => rw [if_pos (hp.inComment_append_iff.mp h)]
  next h => rw [if_neg (mt hp.inComment_append_iff.mpr h)]

theorem exists_endComment_eq_append (p : List Char) : ∃ q, endComment p = p ++ q := by
  unfold endComment
  split
  · exact ⟨['\n'], rfl⟩
  · exact ⟨[], (List.append_nil p).symm⟩

/-- A text is `p` and then `rest`, and cut where no token goes on. A comment goes on only if nothing
else comes after it. -/
structure Cut (s p rest : List Char) : Prop where
  text : s = p ++ rest
  leaves : Outside p ∨ InComment p ∧ rest = []

theorem Cut.refl (s : List Char) : Cut s [] s := ⟨rfl, .inl rfl⟩

theorem Cut.of_outside (hp : Outside p) : Cut (p ++ rest) p rest := ⟨rfl, .inl hp⟩

theorem cut_open (s : List Char) : Cut ('(' :: s) ['('] s := .of_outside outside_open

/-- Before a part that is there the cut is outside comments. -/
theorem Cut.outside (h : Cut s p rest) (hrest : rest ≠ []) : Outside p :=
  h.leaves.resolve_right fun hcomment => hrest hcomment.2

theorem Cut.length_le (h : Cut s p rest) : rest.length ≤ s.length := by
  rw [h.text, List.length_append]
  exact Nat.le_add_left _ _

theorem Cut.trans (h : Cut s p mid) (h' : Cut mid q rest) : Cut s (p ++ q) rest := by
  refine ⟨by rw [h.text, h'.text, List.append_assoc], ?_⟩
  rcases h.leaves with hp | ⟨hp, rfl⟩
  · rcases h'.leaves with hq | ⟨hq, hrest⟩
    · exact .inl (hp.append hq)
    · exact .inr ⟨hp.inComment_append_iff.mpr hq, hrest⟩
  · -- after a comment that ends the text there is nothing to cut
    obtain ⟨rfl, hrest⟩ := List.append_eq_nil_iff.mp h'.text.symm
    exact .inr ⟨(List.append_nil p).symm ▸ hp, hrest⟩

/-- If the first part ends in a comment, nothing comes after it that would have to be set off. -/
theorem Cut.endComment_append (h : Cut s p mid) (h' : Cut mid q rest) :
    endComment (p ++ q) = endComment p ++ endComment q := by
  rcases h.leaves with hp | ⟨_, rfl⟩
  · rw [hp.endComment_append, hp.endComment_eq]
  · obtain ⟨rfl, _⟩ := List.append_eq_nil_iff.mp h'.text.symm
    rw [List.append_nil, outside_nil.endComment_eq, List.append_nil]

/-! ## §3: Parts that were read -/

/-- A comment and the gap after it. -/
private theorem exists_cut_comment (s : List Char)
    (hgap : ∀ s' : List Char, s'.length ≤ s.length →
      ∃ p, Cut s' p (skip s') ∧ ∀ y, Gap (endComment p ++ y) y) :
    ∃ p, Cut (';' :: s) p (skipComment s) ∧ ∀ y, Gap (endComment p ++ y) y := by
  by_cases hfeed : '\n' ∈ s
  · -- the comment ends at the first line feed, and the gap goes on after it
    obtain ⟨body, s', rfl, hbody⟩ := List.eq_append_cons_of_mem hfeed
    obtain ⟨p, hcut, hgap⟩ := hgap s' (by simp; omega)
    have hskip : skipComment (body ++ '\n' :: s') = skip s' := by
      rw [skipComment_append hbody (.inr ⟨s', rfl⟩)]
      rfl
    have hcomment : Outside (';' :: body ++ ['\n']) := outside_comment hbody
    have htext : ';' :: (body ++ '\n' :: s') = ';' :: body ++ ['\n'] ++ s' := by simp
    refine ⟨';' :: body ++ ['\n'] ++ p, ?_, fun y => ?_⟩
    · rw [hskip, htext]
      exact (Cut.of_outside hcomment).trans hcut
    · rw [hcomment.endComment_append]
      have hrest : ';' :: body ++ ['\n'] ++ endComment p ++ y =
          ';' :: (body ++ '\n' :: (endComment p ++ y)) := by simp
      rw [hrest]
      exact .comment hbody (.inr ⟨_, rfl⟩) (.space rfl (hgap y))
  · -- the comment goes up to the end, where a line feed would end it
    have hskip : skipComment s = [] := by
      have happend := skipComment_append hfeed (.inl rfl)
      rwa [List.append_nil] at happend
    have hcomment : InComment (';' :: s) := inComment_comment hfeed
    refine ⟨';' :: s, ⟨by rw [hskip, List.append_nil], .inr ⟨hcomment, hskip⟩⟩, fun y => ?_⟩
    rw [endComment, if_pos hcomment, List.append_assoc]
    exact .comment hfeed (.inr ⟨y, rfl⟩) (.space rfl (.none y))

/-- The gap that a reader skips, before any other text. -/
theorem exists_cut_skip (s : List Char) :
    ∃ p, Cut s p (skip s) ∧ ∀ y, Gap (endComment p ++ y) y := by
  induction hlen : s.length using Nat.strongRecOn generalizing s with
  | _ n ih =>
    subst hlen
    cases s with
    | nil => exact ⟨[], .refl [], .none⟩
    | cons c s =>
      simp only [skip]
      split
      case isTrue hspace =>
        obtain ⟨p, hcut, hgap⟩ := ih s.length (Nat.lt_succ_self _) s rfl
        have hc : Outside [c] := outside_space hspace
        refine ⟨c :: p, (Cut.of_outside hc).trans hcut, fun y => ?_⟩
        rw [← List.singleton_append, hc.endComment_append]
        exact .space hspace (hgap y)
      case isFalse =>
        split
        case isTrue hsemi =>
          subst hsemi
          exact exists_cut_comment s fun s' hs' => ih s'.length (Nat.lt_succ_of_le hs') s' rfl
        case isFalse => exact ⟨[], .refl _, .none⟩

/-- A label that was read, and the gap after it, before any other text that does not go on with the
label. -/
theorem IsLabel.endComment_append {label after y : List Char} (h : IsLabel s label after)
    (hcut : Cut after p rest) (hy : ∀ c ∈ y.head?, isLabelChar c = false) :
    IsLabel (label ++ (endComment p ++ y)) label (endComment p ++ y) where
  text := rfl
  nonempty := h.nonempty
  chars := h.chars
  maximal := by
    cases hp : p with
    | nil => simpa [outside_nil.endComment_eq] using hy
    | cons c p =>
      -- the gap starts with the character that ended the label
      obtain ⟨q, hq⟩ := exists_endComment_eq_append (c :: p)
      have hc : isLabelChar c = false := h.maximal c (by simp [hcut.text, hp])
      simp [hq, hc]

/-- A label with its token and the gaps around them, before any other text that does
not go on with the label. -/
theorem exists_cut_head {head : Head s} (h : readHead? s = some head) :
    ∃ p, Cut s p head.rest ∧ ∀ y, (∀ c ∈ y.head?, isLabelChar c = false) →
      Heading (endComment p ++ y) head.label head.token? y := by
  simp only [readHead?] at h
  split at h
  case isTrue => cases h
  case isFalse hne =>
    have hl := isLabel_takeWhile hne
    have hlabel := outside_label hl.chars
    have hlabelCut : Cut (skip s) _ _ := ⟨hl.text, .inl hlabel⟩
    obtain ⟨p, hcut, hgap⟩ := exists_cut_skip s
    obtain ⟨q, hcut', hgap'⟩ := exists_cut_skip ((skip s).dropWhile isLabelChar)
    split at h
    case h_1 text rest ht =>
      obtain rfl := Option.some.inj h
      obtain ⟨written, hspells, htext⟩ := token?_eq_some_iff.mp ht
      obtain ⟨r, hcut'', hgap''⟩ := exists_cut_skip rest
      have htoken := outside_token hspells
      have htokenCut : Cut (skip ((skip s).dropWhile isLabelChar)) ('"' :: written ++ ['"']) rest :=
        ⟨by rw [htext]; simp, .inl htoken⟩
      have hend := htokenCut.trans hcut''
      have hmid := hcut'.trans hend
      have hall := hlabelCut.trans hmid
      refine ⟨_, hcut.trans hall, fun y _ => ?_⟩
      -- a line feed at the end is that of the one part whose comment is still open
      rw [hcut.endComment_append hall, hlabelCut.endComment_append hmid,
        hcut'.endComment_append hend, htokenCut.endComment_append hcut'', hlabel.endComment_eq,
        htoken.endComment_eq]
      simp only [List.append_assoc, List.cons_append]
      have hquote : ∀ c ∈ ('"' :: (written ++ (['"'] ++ (endComment r ++ y)))).head?,
          isLabelChar c = false := by simp [isLabelChar]
      exact .intro (hgap _) (hl.endComment_append hcut' hquote) (hgap' _)
        (.present ⟨written, hspells, rfl⟩ (hgap'' y))
    case h_2 =>
      obtain rfl := Option.some.inj h
      have hall := hlabelCut.trans hcut'
      refine ⟨_, hcut.trans hall, fun y hy => ?_⟩
      rw [hcut.endComment_append hall, hlabelCut.endComment_append hcut', hlabel.endComment_eq]
      simp only [List.append_assoc]
      exact .intro (hgap _) (hl.endComment_append hcut' hy) (hgap' y) (.absent y)

/-- A heading that was read, and any children after it, make a node. Neither a child nor the closing
parenthesis goes on with the label. -/
theorem isNode_of_heading {label : String} {token? : Option String} {trees : List Ast}
    {y : List Char}
    (hheading : ∀ y, (∀ c ∈ y.head?, isLabelChar c = false) → Heading (p ++ y) label token? y)
    (hchildren : Nodes s trees (')' :: y)) :
    IsNode ('(' :: (p ++ s)) (.node label token? trees) y := by
  refine .intro (hheading s fun c hc => ?_) hchildren
  have hclosed : Closed (')' :: y) := by simp [Closed]
  rcases hchildren.parenthesis hclosed c hc with rfl | rfl <;> rfl

/-- A node that was found, and nodes that were read one after another, before any other text. -/
theorem exists_cut_found_and_run :
    (∀ s tree rest shorter misses, (tryNode s).attempt = .found tree rest shorter misses →
      ∃ p, Cut s p rest ∧ Outside p ∧ ∀ y, IsNode (p ++ y) tree y) ∧
    ∀ s, ∃ p, Cut s p (tryNodes s).run.rest ∧
      ∀ y, Nodes (endComment p ++ y) (tryNodes s).run.trees y := by
  refine tryNode.mutual_induct _ _ ?noLabel ?head ?notOpen ?last ?more
  case noLabel =>
    intro s hhead tree rest shorter misses h
    simp [tryNode_of_no_label hhead] at h
  case head =>
    intro s head hhead _ ih tree rest shorter misses h
    rw [tryNode_of_head hhead] at h
    rcases head.close_cases (tryNodes head.rest).run with ⟨rest', _, hrest, hclose⟩ | ⟨_, hclose⟩
    · obtain ⟨p, hcut, hheading⟩ := exists_cut_head hhead
      obtain ⟨q, hcut', hnodes⟩ := ih
      simp only [hclose, Attempt.found.injEq] at h
      obtain ⟨rfl, rfl, _⟩ := h
      rw [hrest] at hcut'
      -- the closing parenthesis is there, so neither the heading nor the children end in a comment
      have hq := hcut'.outside (by simp)
      have hp := hcut.outside (by rw [hcut'.text]; simp)
      rw [hp.endComment_eq] at hheading
      rw [hq.endComment_eq] at hnodes
      have hend : Cut (')' :: rest') [')'] rest' := Cut.of_outside outside_close
      refine ⟨_, (cut_open s).trans (hcut.trans (hcut'.trans hend)),
        outside_open.append (hp.append (hq.append outside_close)), fun y => ?_⟩
      simp only [List.append_assoc, List.cons_append, List.nil_append]
      exact isNode_of_heading hheading (hnodes (')' :: y))
    · simp [hclose] at h
  case notOpen =>
    intro s hopen tree rest shorter misses h
    simp [tryNode_of_not_open hopen] at h
  case last =>
    intro s first misses hfirst _
    rw [tryNodes_of_refused hfirst]
    exact ⟨[], .refl s, .nil⟩
  case more =>
    intro s first tree rest shorter misses hfirst _ others _ ih ihOthers
    obtain ⟨_, heq⟩ := tryNodes_of_found hfirst
    obtain ⟨p, hcut, hp, hnode⟩ := ih tree rest shorter misses hfirst
    obtain ⟨q, hcut', hgap⟩ := exists_cut_skip rest
    obtain ⟨r, hcut'', hnodes⟩ := ihOthers
    have hend := hcut'.trans hcut''
    rw [heq]
    refine ⟨p ++ (q ++ r), hcut.trans hend, fun y => ?_⟩
    rw [hp.endComment_append, hcut'.endComment_append hcut'']
    simp only [List.append_assoc]
    exact .cons (hnode _) (hgap _) (hnodes y)

end SExpr

end PathCorpus
