import PathCorpus.Proofs.SExpr.Beginnings

/-!
# Where a reading stops

A text that is refused is refused at one place. The misses that were noted there say which
parts could have come next, and they say so truly. In front of the place stands the beginning
of a text of the grammar, and with any of these parts put in the place of the rest the
beginning can be brought to an end.

The reader does not look for the furthest place. That the last misses are the furthest is
because a node that was found has all its misses in front of its end, and reading goes on from
there. That a token and a child can be missed at one place, and no other two parts, is because a
reading stops at the first node that it refuses.

## Main statements

- `attempt_tells_and_run_tells`: what the misses of each attempt say.
- `exists_halts_of_readWhole`: the place where a text is refused.
- `ofMisses_eq`: the error is made of the misses at that place.
- `malformed_viable`: what a syntax error says is so.
-/

namespace PathCorpus

namespace SExpr

variable {s p q mid rest before after : List Char} {misses front : List Miss} {parts : List Part}

/-! ## §1: Elements -/

/-- The text is a part of the kind, and nothing else. -/
def IsElement : Part → (x : List Char) → Prop
  | .node, x => ∃ tree, IsNode x tree []
  | .label, x => ∃ label, IsLabel x label []
  | .token, x => ∃ meant, IsToken x meant []
  | .endOfText, x => x = []

/-- A part of the kind starts here. A node is taken to start with its parenthesis, whether
it comes to its end or not. -/
def StartsAt : Part → (s : List Char) → Prop
  | .node, s => ∃ s', s = '(' :: s'
  | .label, s => ∃ c ∈ s.head?, isLabelChar c = true
  | .token, s => ∃ meant rest, IsToken s meant rest
  | .endOfText, s => s = []

theorem exists_isElement (part : Part) : ∃ x, IsElement part x := by
  cases part with
  | endOfText => exact ⟨[], rfl⟩
  | label => exact ⟨['a'], ['a'], rfl, by simp, by simp [isLabelChar, isSpace], by simp⟩
  | token => exact ⟨['"', '"'], [], [], .nil, rfl⟩
  | node =>
    have hlabel : IsLabel ['a', ')'] ['a'] [')'] :=
      ⟨rfl, by simp, by simp [isLabelChar, isSpace], by simp [isLabelChar]⟩
    exact ⟨['(', 'a', ')'], _, .intro (.intro (.none _) hlabel (.none _) (.absent _)) (.nil _)⟩

/-- After a node may come anything. -/
theorem IsNode.append {x : List Char} {tree : Ast} (h : IsNode x tree []) (y : List Char) :
    IsNode (x ++ y) tree y := by
  obtain ⟨shorter, misses, hread⟩ := h.exists_readNode (Nat.le_refl tree.levels)
  have hfound : (tryNode x).attempt = .found tree [] shorter misses := by
    rw [readNode_eq] at hread
    split at hread
    · exact Option.some.inj hread
    · cases hread
  obtain ⟨p, hcut, _, hnode⟩ := exists_cut_found_and_run.1 x tree [] shorter misses hfound
  rw [hcut.text, List.append_nil]
  exact hnode y

theorem IsToken.append {x meant : List Char} (h : IsToken x meant []) (y : List Char) :
    IsToken (x ++ y) meant y := by
  obtain ⟨written, hspells, rfl⟩ := h
  exact ⟨written, hspells, by simp⟩

/-- A label comes to its end at a closing parenthesis. -/
theorem IsLabel.append_close {x label : List Char} (h : IsLabel x label []) (y : List Char) :
    IsLabel (x ++ ')' :: y) label (')' :: y) where
  text := by rw [h.text, List.append_nil]
  nonempty := h.nonempty
  chars := h.chars
  maximal := by simp [isLabelChar]

/-! ## §2: Places where a node stalls -/

/-- The start of a node was read as `before`, and it does not go on at `after`. One of
the parts would have had to come there, none of them does, and any of them could be
followed by the rest of a node. -/
structure Stalls (s before after : List Char) (parts : List Part) : Prop where
  cut : Cut s before after
  parts_eq : parts = [.node] ∨ parts = [.label] ∨ parts = [.token, .node]
  /-- A parenthesis that opens the node is read. -/
  opened : ∀ s', s = '(' :: s' → after.length < s.length
  absent : ∀ part ∈ parts, ¬ StartsAt part after
  completes : ∀ part ∈ parts, ∀ x, IsElement part x →
    ∃ closing, ∀ y, ∃ tree, IsNode (endComment before ++ (x ++ (closing ++ y))) tree y

theorem stalls_of_not_open (h : ∀ s', s ≠ '(' :: s') : Stalls s [] s [.node] where
  cut := .refl s
  parts_eq := .inl rfl
  opened s' hs := absurd hs (h s')
  absent part hpart := by
    obtain rfl := List.mem_singleton.mp hpart
    exact fun ⟨s', hs⟩ => h s' hs
  completes part hpart x hx := by
    obtain rfl := List.mem_singleton.mp hpart
    obtain ⟨tree, hx⟩ := hx
    exact ⟨[], fun y => ⟨tree, hx.append y⟩⟩

theorem not_startsAt_label (h : readHead? s = none) : ¬ StartsAt .label (skip s) := by
  rintro ⟨c, hc, hlabel⟩
  simp only [readHead?] at h
  split at h
  case isTrue hnil =>
    cases hs : skip s with
    | nil => simp [hs] at hc
    | cons d s' =>
      obtain rfl : d = c := by simpa [hs] using hc
      simp [hs, hlabel] at hnil
  case isFalse => split at h <;> cases h

/-- Behind a parenthesis and a gap without a label after it. -/
theorem exists_stalls_of_no_label (h : readHead? s = none) :
    ∃ before, Stalls ('(' :: s) before (skip s) [.label] := by
  obtain ⟨p, hcut, hgap⟩ := exists_cut_skip s
  refine ⟨['('] ++ p, (cut_open s).trans hcut, .inr (.inl rfl),
    fun _ _ => Nat.lt_succ_of_le hcut.length_le, fun part hpart => ?_, fun part hpart x hx => ?_⟩
  · obtain rfl := List.mem_singleton.mp hpart
    exact not_startsAt_label h
  · obtain rfl := List.mem_singleton.mp hpart
    obtain ⟨label, hlabel⟩ := hx
    rw [outside_open.endComment_append]
    refine ⟨[')'], fun y => ⟨.node (String.ofList label) none [], ?_⟩⟩
    exact .intro (.intro (hgap _) (hlabel.append_close y) (.none _) (.absent _)) (.nil _)

/-- Nodes one after another. -/
theorem Nodes.append {trees trees' : List Ast} (h : Nodes s trees mid)
    (h' : Nodes mid trees' rest) : Nodes s (trees ++ trees') rest := by
  induction trees generalizing s with
  | nil =>
    cases h
    exact h'
  | cons tree trees ih =>
    cases h with
    | cons first hgap others => exact .cons first hgap (ih others)

/-- What is missing in a child is missing in the node. -/
theorem Stalls.child {head : Head s} (hhead : readHead? s = some head)
    (h : Stalls (tryNodes head.rest).run.rest before after parts) :
    ∃ before', Stalls ('(' :: s) before' after parts := by
  obtain ⟨p, hcut, hheading⟩ := exists_cut_head hhead
  obtain ⟨q, hcut', hnodes⟩ := exists_cut_found_and_run.2 head.rest
  have hinner := hcut'.trans h.cut
  have hall := hcut.trans hinner
  refine ⟨_, (cut_open s).trans hall, h.parts_eq, fun _ _ => Nat.lt_succ_of_le hall.length_le,
    h.absent, fun part hpart x hx => ?_⟩
  obtain ⟨closing, hclosing⟩ := h.completes part hpart x hx
  refine ⟨closing ++ [')'], fun y => ?_⟩
  obtain ⟨tree, hnode⟩ := hclosing (')' :: y)
  rw [outside_open.endComment_append, hcut.endComment_append hinner, hcut'.endComment_append h.cut]
  simp only [List.append_assoc, List.cons_append, List.nil_append]
  have hchild : Nodes _ [tree] (')' :: y) := .cons hnode (.none _) (.nil _)
  exact ⟨_, isNode_of_heading hheading ((hnodes _).append hchild)⟩

/-- A heading goes on with a token if it has none yet. -/
theorem Heading.present {label : String} {meant : List Char} (h : Heading s label none mid)
    (htoken : IsToken mid meant rest) : Heading s label (some (String.ofList meant)) rest := by
  cases h with
  | intro hgap hlabel hgap' habsent =>
    cases habsent
    exact .intro hgap hlabel hgap' (.present htoken (.none rest))

/-- Behind a heading without a token, where no child starts either. -/
theorem exists_stalls_of_no_token {head : Head s} (hhead : readHead? s = some head)
    (hnone : head.token? = none) (htoken : ¬ StartsAt .token head.rest)
    (hopen : ∀ s', head.rest ≠ '(' :: s') :
    ∃ before, Stalls ('(' :: s) before head.rest [.token, .node] := by
  obtain ⟨p, hcut, hheading⟩ := exists_cut_head hhead
  rw [hnone] at hheading
  refine ⟨['('] ++ p, (cut_open s).trans hcut, .inr (.inr rfl),
    fun _ _ => Nat.lt_succ_of_le hcut.length_le, fun part hpart => ?_, fun part hpart x hx => ?_⟩
  · rcases List.mem_pair.mp hpart with rfl | rfl
    · exact htoken
    · exact fun ⟨s', hs⟩ => hopen s' hs
  · rw [outside_open.endComment_append]
    refine ⟨[')'], fun y => ?_⟩
    rcases List.mem_pair.mp hpart with rfl | rfl
    · obtain ⟨meant, hx⟩ := hx
      have hquote : ∀ c ∈ (x ++ ')' :: y).head?, isLabelChar c = false := by
        obtain ⟨written, _, rfl⟩ := hx
        simp [isLabelChar]
      exact ⟨_, .intro ((hheading _ hquote).present (hx.append _)) (.nil _)⟩
    · obtain ⟨tree, hx⟩ := hx
      exact ⟨_, isNode_of_heading hheading (.cons (hx.append _) (.none _) (.nil _))⟩

/-! ## §3: Misses -/

/-- The last misses are those of the parts, all at `after`, and those noted before
them are at earlier places. -/
def EndsAt (misses : List Miss) (after : List Char) (parts : List Part) : Prop :=
  ∃ front : List Miss, misses = front ++ parts.map (Miss.mk · after) ∧
    ∀ m ∈ front, after.length < m.rest.length

theorem EndsAt.append (h : EndsAt misses after parts)
    (hfront : ∀ m ∈ front, after.length < m.rest.length) :
    EndsAt (front ++ misses) after parts := by
  obtain ⟨front', rfl, hfront'⟩ := h
  refine ⟨front ++ front', (List.append_assoc _ _ _).symm, fun m hm => ?_⟩
  exact (List.mem_append.mp hm).elim (hfront m) (hfront' m)

theorem EndsAt.length_le (h : EndsAt misses after parts) :
    ∀ m ∈ misses, after.length ≤ m.rest.length := by
  obtain ⟨front, rfl, hfront⟩ := h
  intro m hm
  rcases List.mem_append.mp hm with hm | hm
  · exact Nat.le_of_lt (hfront m hm)
  · obtain ⟨part, _, rfl⟩ := List.mem_map.mp hm
    exact Nat.le_refl _

theorem EndsAt.mem_iff (h : EndsAt misses after parts) (part : Part) :
    ⟨part, after⟩ ∈ misses ↔ part ∈ parts := by
  obtain ⟨front, rfl, hfront⟩ := h
  have hnot : (⟨part, after⟩ : Miss) ∉ front := fun hm => Nat.lt_irrefl _ (hfront _ hm)
  simp [hnot]

/-- The misses of a heading are at its end. -/
theorem misses_of_readHead? {head : Head s} (h : readHead? s = some head) :
    head.misses = [] ∨
      head.token? = none ∧ head.misses = [⟨.token, head.rest⟩] ∧ ¬ StartsAt .token head.rest := by
  simp only [readHead?] at h
  split at h
  case isTrue => cases h
  case isFalse =>
    split at h
    case h_1 =>
      obtain rfl := Option.some.inj h
      exact .inl rfl
    case h_2 hnone =>
      obtain rfl := Option.some.inj h
      refine .inr ⟨rfl, rfl, ?_⟩
      rintro ⟨meant, rest, htoken⟩
      rw [token?_eq_some_iff.mpr htoken] at hnone
      cases hnone

/-- What the misses of an attempt say. Those of a node that was found are all in front of its
end, and the last ones of a node that was refused are where it stalls. -/
def Attempt.Tells {s : List Char} : Attempt s → Prop
  | .found _ rest _ misses => ∀ m ∈ misses, rest.length < m.rest.length
  | .refused misses => ∃ before after parts, Stalls s before after parts ∧ EndsAt misses after parts

/-- The misses of a run are those of the nodes in it, and then those of the node that ended it. -/
def Run.Tells {s : List Char} (run : Run s) : Prop :=
  ∃ front misses, run.misses = front ++ misses ∧ (∀ m ∈ front, run.rest.length < m.rest.length) ∧
    (tryNode run.rest).attempt = .refused misses ∧ (tryNode run.rest).attempt.Tells

/-- If a closing parenthesis comes next, all misses of a run are in front of what follows it. -/
theorem Run.Tells.length_lt {run : Run s} (h : run.Tells) (hrest : run.rest = ')' :: rest) :
    ∀ m ∈ run.misses, rest.length < m.rest.length := by
  obtain ⟨front, misses, hmisses, hfront, hlast, _⟩ := h
  have hlt : rest.length < run.rest.length := by simp [hrest]
  intro m hm
  rw [hmisses] at hm
  rcases List.mem_append.mp hm with hm | hm
  · exact Nat.lt_trans hlt (hfront m hm)
  · -- a closing parenthesis opens no node
    have hclosed : ∀ s', run.rest ≠ '(' :: s' := by simp [hrest]
    rw [tryNode_of_not_open hclosed, Attempt.refused.injEq] at hlast
    rw [← hlast, List.mem_singleton] at hm
    rw [hm]
    exact hlt

/-- After a parenthesis that opens a node the reading does not stay where it is. -/
theorem length_lt_of_stalls (hopen : s = '(' :: p)
    (h : Stalls (tryNodes s).run.rest before after parts) : after.length < s.length := by
  have hle := h.cut.length_le
  cases hfirst : (tryNode s).attempt with
  | refused misses =>
    rw [tryNodes_of_refused hfirst] at h
    exact h.opened p hopen
  | found tree rest shorter misses =>
    -- the run has gone past a whole node before it stalls
    obtain ⟨_, heq⟩ := tryNodes_of_found hfirst
    have hrun := (tryNodes (skip rest)).run.shorter
    have hskip := length_skip_le rest
    rw [heq] at hle
    simp only at hle
    omega

/-- A node that is not closed stalls where its last child does. -/
theorem Run.Tells.exists_stalls {head : Head s} (hhead : readHead? s = some head)
    (h : (tryNodes head.rest).run.Tells) :
    ∃ before after parts, Stalls ('(' :: s) before after parts ∧
      EndsAt (head.misses ++ (tryNodes head.rest).run.misses) after parts := by
  obtain ⟨front, misses, hmisses, hfront, hlast, htells⟩ := h
  rw [hlast] at htells
  obtain ⟨before, after, parts, hstalls, hends⟩ := htells
  have hfront' : ∀ m ∈ front, after.length < m.rest.length :=
    fun m hm => Nat.lt_of_le_of_lt hstalls.cut.length_le (hfront m hm)
  obtain ⟨before', hstalls'⟩ := hstalls.child hhead
  rcases misses_of_readHead? hhead with hnil | ⟨hnone, hmiss, htoken⟩
  · refine ⟨before', after, parts, hstalls', ?_⟩
    rw [hnil, List.nil_append, hmisses]
    exact hends.append hfront'
  · by_cases hopen : ∃ s', head.rest = '(' :: s'
    · -- a child was tried behind the token that is missing
      obtain ⟨s', hs'⟩ := hopen
      refine ⟨before', after, parts, hstalls', ?_⟩
      rw [hmisses]
      refine (hends.append hfront').append fun m hm => ?_
      rw [hmiss, List.mem_singleton] at hm
      rw [hm]
      exact length_lt_of_stalls hs' hstalls
    · -- the token and the first child are missing at one place
      have hclosed : ∀ s', head.rest ≠ '(' :: s' := fun s' hs' => hopen ⟨s', hs'⟩
      have hrefused : (tryNode head.rest).attempt = .refused [⟨.node, head.rest⟩] := by
        rw [tryNode_of_not_open hclosed]
      obtain ⟨before, hstalls⟩ := exists_stalls_of_no_token hhead hnone htoken hclosed
      refine ⟨before, head.rest, [.token, .node], hstalls, [], ?_, by simp⟩
      rw [tryNodes_of_refused hrefused, hmiss]
      rfl

/-- **Misses come in the order of the text**, and the last of them are where the reading stops. -/
theorem attempt_tells_and_run_tells :
    (∀ s, (tryNode s).attempt.Tells) ∧ ∀ s, (tryNodes s).run.Tells := by
  -- the cases are the ways an attempt or a run can go
  refine tryNode.mutual_induct _ _ ?noLabel ?head ?notOpen ?last ?more
  case noLabel =>
    intro s hhead
    obtain ⟨before, hstalls⟩ := exists_stalls_of_no_label hhead
    rw [tryNode_of_no_label hhead]
    exact ⟨before, skip s, [.label], hstalls, [], rfl, by simp⟩
  case head =>
    intro s head hhead _ ih
    rw [tryNode_of_head hhead]
    show (head.close (tryNodes head.rest).run).Tells
    rcases head.close_cases (tryNodes head.rest).run with
      ⟨rest, shorter, hrest, hclose⟩ | ⟨_, hclose⟩
    · -- the node is found behind its closing parenthesis, and all its misses are in front of that
      rw [hclose]
      intro m hm
      rcases List.mem_append.mp hm with hm | hm
      · have hle := (tryNodes head.rest).run.shorter
        rw [hrest, List.length_cons] at hle
        rcases misses_of_readHead? hhead with hnil | ⟨_, hmiss, _⟩
        · simp [hnil] at hm
        · rw [hmiss, List.mem_singleton] at hm
          rw [hm]
          exact hle
      · exact ih.length_lt hrest m hm
    · rw [hclose]
      exact ih.exists_stalls hhead
  case notOpen =>
    intro s hopen
    rw [tryNode_of_not_open hopen]
    exact ⟨[], s, [.node], stalls_of_not_open hopen, [], rfl, by simp⟩
  case last =>
    intro s first misses hfirst ih
    rw [tryNodes_of_refused hfirst]
    exact ⟨[], misses, rfl, by simp, hfirst, ih⟩
  case more =>
    intro s first tree rest shorter misses hfirst _ others _ ih ihOthers
    obtain ⟨_, heq⟩ := tryNodes_of_found hfirst
    obtain ⟨front, misses', hmisses, hfront, hlast, htells⟩ := ihOthers
    rw [heq]
    have hall : misses ++ others.run.misses = misses ++ front ++ misses' := by
      rw [hmisses, List.append_assoc]
    refine ⟨misses ++ front, misses', hall, fun m hm => ?_, hlast, htells⟩
    rcases List.mem_append.mp hm with hm | hm
    · -- the misses of the first node are in front of its end, and the run ends no earlier
      have hfound : ∀ m ∈ misses, rest.length < m.rest.length := by
        rw [show (tryNode s).attempt = _ from hfirst] at ih
        exact ih
      have hle := (tryNodes (skip rest)).run.shorter
      have hskip := length_skip_le rest
      have hlt := hfound m hm
      show (tryNodes (skip rest)).run.rest.length < m.rest.length
      omega
    · exact hfront m hm

/-! ## §4: Whole texts -/

/-- A text was read as `before`, and its reading does not go on at `after`. -/
structure Halts (text before after : List Char) (parts : List Part) : Prop where
  text_eq : before ++ after = text
  parts_eq : (parts = [.node] ∨ parts = [.label] ∨ parts = [.token, .node]) ∨ parts = [.endOfText]
  absent : ∀ part ∈ parts, ¬ StartsAt part after
  completes : ∀ part ∈ parts, part ≠ .endOfText → ∀ x, IsElement part x →
    ∃ closing tree, IsText (endComment before ++ (x ++ closing)) tree
  ended : .endOfText ∈ parts → ∃ tree, IsText before tree

theorem Halts.parts_ne_nil {text : List Char} (h : Halts text before after parts) : parts ≠ [] := by
  rcases h.parts_eq with (rfl | rfl | rfl) | rfl <;> exact List.cons_ne_nil _ _

/-- What was read is the beginning of a text. -/
theorem Halts.exists_isText {text : List Char} (h : Halts text before after parts) :
    ∃ others tree, IsText (before ++ others) tree := by
  obtain ⟨part, hpart⟩ := List.exists_mem_of_ne_nil parts h.parts_ne_nil
  by_cases hend : part = .endOfText
  · obtain ⟨tree, htree⟩ := h.ended (hend ▸ hpart)
    exact ⟨[], tree, by rwa [List.append_nil]⟩
  · obtain ⟨x, hx⟩ := exists_isElement part
    obtain ⟨closing, tree, htree⟩ := h.completes part hpart hend x hx
    obtain ⟨q, hq⟩ := exists_endComment_eq_append before
    rw [hq, List.append_assoc] at htree
    exact ⟨_, tree, htree⟩

/-- The gap in front of the node is read with it. -/
theorem Stalls.exists_halts {text : List Char} (h : Stalls (skip text) before after parts) :
    ∃ before', Halts text before' after parts := by
  obtain ⟨p, hcut, hgap⟩ := exists_cut_skip text
  refine ⟨p ++ before, (hcut.trans h.cut).text.symm, .inl h.parts_eq, h.absent,
    fun part hpart _ x hx => ?_, fun hend => ?_⟩
  · obtain ⟨closing, hclosing⟩ := h.completes part hpart x hx
    obtain ⟨tree, hnode⟩ := hclosing []
    rw [List.append_nil] at hnode
    refine ⟨closing, tree, ?_⟩
    rw [hcut.endComment_append h.cut, List.append_assoc]
    exact ⟨_, [], hgap _, hnode, .none []⟩
  · -- a node does not stall for want of an end
    rcases h.parts_eq with rfl | rfl | rfl <;> simp at hend

/-- Text behind the node is where the text should have ended. -/
theorem exists_halts_of_found {text : List Char} {tree : Ast}
    {shorter : rest.length < (skip text).length}
    (h : (tryNode (skip text)).attempt = .found tree rest shorter misses) (hrest : skip rest ≠ []) :
    ∃ before, Halts text before (skip rest) [.endOfText] := by
  obtain ⟨p, hcut, hgap⟩ := exists_cut_skip text
  obtain ⟨q, hcut', hq, hnode⟩ := exists_cut_found_and_run.1 _ _ _ _ _ h
  obtain ⟨r, hcut'', hgap'⟩ := exists_cut_skip rest
  have hp := hcut.outside (List.ne_nil_of_length_pos (Nat.zero_lt_of_lt shorter))
  have hr := hcut''.outside hrest
  rw [hp.endComment_eq] at hgap
  rw [hr.endComment_eq] at hgap'
  refine ⟨p ++ (q ++ r), (hcut.trans (hcut'.trans hcut'')).text.symm, .inr rfl,
    fun part hpart => ?_,
    fun part hpart hne => absurd (List.mem_singleton.mp hpart) hne, fun _ => ?_⟩
  · obtain rfl := List.mem_singleton.mp hpart
    exact hrest
  · have hend := hgap' []
    rw [List.append_nil] at hend
    exact ⟨tree, _, r, hgap _, hnode r, hend⟩

theorem exists_halts_of_readWhole {text : List Char} (h : readWhole text = .error misses) :
    ∃ before after parts, Halts text before after parts ∧ EndsAt misses after parts := by
  have htells := attempt_tells_and_run_tells.1 (skip text)
  rw [readWhole] at h
  split at h
  next misses' hrefused =>
    obtain rfl := Except.error.inj h
    rw [hrefused] at htells
    obtain ⟨before, after, parts, hstalls, hends⟩ := htells
    obtain ⟨before', hhalts⟩ := hstalls.exists_halts
    exact ⟨before', after, parts, hhalts, hends⟩
  next tree rest shorter misses' hfound =>
    split at h
    next => cases h
    next hrest =>
      obtain rfl := Except.error.inj h
      obtain ⟨before, hhalts⟩ := exists_halts_of_found hfound hrest
      rw [hfound] at htells
      refine ⟨before, skip rest, [.endOfText], hhalts, misses', rfl, fun m hm => ?_⟩
      exact Nat.lt_of_le_of_lt (length_skip_le rest) (htells m hm)

/-! ## §5: Syntax errors -/

theorem furthest_eq (h : EndsAt misses after parts) (hne : parts ≠ []) :
    SyntaxError.furthest misses = parts.map (Miss.mk · after) := by
  obtain ⟨front, rfl, hfront⟩ := h
  have hlast : (front ++ parts.map (Miss.mk · after)).getLast? =
      some ⟨parts.getLast hne, after⟩ := by
    rw [List.getLast?_append_of_ne_nil _ (by simpa using hne), List.getLast?_map,
      List.getLast?_eq_some_getLast hne, Option.map_some]
  -- taken from the back, the misses at the last place are all of these and none in front of them
  have hat : ∀ m ∈ (parts.map (Miss.mk · after)).reverse,
      decide (m.rest.length = after.length) = true := by
    simp
  have hback : front.reverse.takeWhile (fun m => decide (m.rest.length = after.length)) = [] := by
    cases hrev : front.reverse with
    | nil => rfl
    | cons m front' =>
      have hm : m ∈ front := List.mem_reverse.mp (hrev ▸ List.mem_cons_self)
      have hne := Nat.ne_of_gt (hfront m hm)
      simp [hne]
  simp only [SyntaxError.furthest, hlast]
  rw [List.reverse_append, List.takeWhile_append_of_pos hat, hback, List.append_nil,
    List.reverse_reverse]

theorem ofMisses_eq {text : List Char} (htext : before ++ after = text) (hne : parts ≠ [])
    (h : EndsAt misses after parts) :
    SyntaxError.ofMisses text misses = ⟨before, after, Part.all.filter (· ∈ parts)⟩ := by
  have hafter : ((parts.map (Miss.mk · after)).head?.map (·.rest)).getD text =
      after := by
    cases parts with
    | nil => exact absurd rfl hne
    | cons => rfl
  have hany : ∀ part, (parts.map (Miss.mk · after)).any
      (fun m => decide (m.part = part)) = decide (part ∈ parts) := by
    intro part
    rw [Bool.eq_iff_iff, List.any_eq_true, decide_eq_true_iff]
    simp
  simp only [SyntaxError.ofMisses, furthest_eq h hne, hafter, hany]
  simp [← htext]

theorem mem_filter_all_iff {part : Part} :
    part ∈ Part.all.filter (fun part => decide (part ∈ parts)) ↔ part ∈ parts := by
  cases part <;> simp [Part.all]

theorem Halts.names_mem {text : List Char} (h : Halts text before after parts) :
    (Part.all.filter (fun part => decide (part ∈ parts))).map Part.name ∈
      [["node"], ["node", "token"], ["type_label"], ["EOI"]] := by
  rcases h.parts_eq with (rfl | rfl | rfl) | rfl <;> decide

/-- **A syntax error points at the right place.** What is in front of the place begins a text of
the grammar. The parts expected are those that the reading missed at its furthest place. None of
them is there, and each of them could have been: with any such part in the place of the rest,
behind a line feed if the place is in a comment, the text goes on to one of the grammar. Where
only the end was expected, what is in front of the place is a text of the grammar itself. -/
theorem malformed_viable (text : List Char) (e : SyntaxError)
    (h : parse text = .error (.malformed e)) :
    e.before ++ e.after = text ∧
    e.expected.map Part.name ∈ [["node"], ["node", "token"], ["type_label"], ["EOI"]] ∧
    (∃ misses, readText maxLevels text = some (.error misses) ∧
      (∀ m ∈ misses, e.after.length ≤ m.rest.length) ∧
      ∀ part, part ∈ e.expected ↔ ⟨part, e.after⟩ ∈ misses) ∧
    (∃ others tree, IsText (e.before ++ others) tree) ∧
    (∀ part ∈ e.expected, part ≠ .endOfText → (∃ x, IsElement part x) ∧ ∀ x, IsElement part x →
      ∃ closing tree, IsText (endComment e.before ++ (x ++ closing)) tree) ∧
    (.endOfText ∈ e.expected → ∃ tree, IsText e.before tree) ∧
    ∀ part ∈ e.expected, ¬ StartsAt part e.after := by
  rw [parse_eq] at h
  split at h
  case isTrue => cases h
  case isFalse hdepth =>
    have hread := readText_eq_readWhole (Nat.le_of_not_lt hdepth)
    cases hwhole : readWhole text with
    | ok tree => simp [hwhole, Except.mapError] at h
    | error misses =>
      -- the error is read off the misses, so its place is the one where the reading halts
      obtain ⟨before, after, parts, hhalts, hends⟩ := exists_halts_of_readWhole hwhole
      have hne := hhalts.parts_ne_nil
      obtain rfl : e = ⟨before, after, Part.all.filter (· ∈ parts)⟩ := by
        rw [← ofMisses_eq hhalts.text_eq hne hends]
        simpa [hwhole, Except.mapError, eq_comm] using h
      have hmem : ∀ {part}, part ∈ Part.all.filter (fun part => decide (part ∈ parts)) →
          part ∈ parts := mem_filter_all_iff.mp
      refine ⟨hhalts.text_eq, ?_, ⟨misses, by rw [hread, hwhole], ?_, fun part => ?_⟩,
        ?_, ?_, ?_, ?_⟩
      · exact hhalts.names_mem
      · exact hends.length_le
      · exact mem_filter_all_iff.trans (hends.mem_iff part).symm
      · exact hhalts.exists_isText
      · exact fun part hpart hend =>
          ⟨exists_isElement part, hhalts.completes part (hmem hpart) hend⟩
      · exact fun hend => hhalts.ended (hmem hend)
      · exact fun part hpart => hhalts.absent part (hmem hpart)

/-- A child that is not closed, and a comment behind its label that the text ends in. -/
theorem malformed_viable_commented :
    let text := "(a ;(\n (b ; c".toList
    parse text = .error (.malformed ⟨text, [], [.node, .token]⟩) ∧
      ∃ closing tree, IsText (text ++ ['\n'] ++ ("\"(\"".toList ++ closing)) tree := by
  intro text
  have hparse : parse text = .error (.malformed ⟨text, [], [.node, .token]⟩) := by decide +kernel
  obtain ⟨_, _, _, _, hcompletes, _⟩ := malformed_viable text _ hparse
  have htoken : IsElement .token "\"(\"".toList :=
    ⟨['('], ['('], .plain (by decide) (by decide) .nil, rfl⟩
  have hend : endComment text = text ++ ['\n'] := by decide +kernel
  obtain ⟨_, hall⟩ := hcompletes .token (by simp) (by simp)
  exact ⟨hparse, hend ▸ hall _ htoken⟩

end SExpr

end PathCorpus
