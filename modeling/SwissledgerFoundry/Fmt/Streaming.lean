import SwissledgerFoundry.Fmt.Reach
import SwissledgerFoundry.Fmt.Refinement

/-!
# Streaming equals lookahead

The document that the buffer and the tokens to come make up is printed with
lookahead.  Scanning a token does not change the result.
-/

namespace SwissledgerFoundry.Fmt

open Option Nat List Draft

def Mark.token : Mark → Option Token
  | .cell item => some item.token
  | .dropped => none

variable (marks : List Mark)

variable {cell : Cell}

theorem width_stop {token : BreakToken} (breaks : cell.token = .breakToken token) :
    width 0 (.cell cell :: marks) = 0 := by
  simp only [width, breaks]

theorem width_cell {depth : ℕ} (inside : ∀ token, cell.token = .breakToken token → 1 ≤ depth) :
    width depth (.cell cell :: marks) = cell.token.width + width (cell.token.nest depth) marks := by
  rw [width]
  intro token breaks outside
  exact absurd (inside token breaks) (by omega)

theorem width_dropped {depth : ℕ} (inside : 1 ≤ depth) :
    width depth (.dropped :: marks) = width depth marks := by
  cases depth with
  | zero => cases inside
  | succ depth => rfl

/-- A mark ends the width before it, or the width goes on. -/
theorem width_cell_cases (depth : ℕ) (cell : Cell) :
    (depth = 0 ∧ ∃ token, cell.token = .breakToken token) ∨
      ∀ token, cell.token = .breakToken token → 1 ≤ depth := by
  by_cases outside : depth = 0
  · cases same : cell.token with
    | breakToken token => exact .inl ⟨outside, token, rfl⟩
    | _ => exact .inr fun _ breaks => by cases breaks
  · exact .inr fun _ _ => one_le_iff_ne_zero.mpr outside

theorem width_nonneg (depth : ℕ) (marks : List Mark) : 0 ≤ width depth marks := by
  induction marks generalizing depth with
  | nil => rw [width]
  | cons mark marks ih =>
    cases mark with
    | dropped =>
      cases depth with
      | zero => exact Int.le_refl 0
      | succ depth => exact ih _
    | cell cell =>
      rcases width_cell_cases depth cell with ⟨rfl, token, breaks⟩ | inside
      · rw [width_stop marks breaks]
      · rw [width_cell marks inside]
        exact Int.add_nonneg cell.token.width_nonneg (ih _)

variable {marks} {cells : List Cell}

/-- Over cells without an ending break, widths add up. -/
theorem width_append {depth : ℕ} (clear : Clear depth cells) (marks : List Mark) :
    width depth (cells.map .cell ++ marks) =
      widths cells + width (depthAfter depth cells) marks := by
  induction cells generalizing depth with
  | nil => exact (Int.zero_add _).symm
  | cons cell cells ih =>
    rw [map_cons, cons_append, width_cell _ clear.1,
      ih clear.2, widths_cons, depthAfter_cons, Int.add_assoc]

theorem width_congr {other : List Mark} (depth : ℕ)
    (same : marks.map Mark.token = other.map Mark.token) :
    width depth marks = width depth other := by
  induction marks generalizing other depth with
  | nil => rw [map_eq_nil_iff.mp same.symm]
  | cons mark marks ih =>
    cases other with
    | nil => cases same
    | cons second other =>
      injection same with token same
      cases mark with
      | dropped =>
        cases second with
        | cell cell => cases token
        | dropped =>
          cases depth with
          | zero => rfl
          | succ depth =>
            have inside := succ_pos depth
            rw [width_dropped other inside]
            exact ih _ same
      | cell cell =>
        cases second with
        | dropped => cases token
        | cell found =>
          injection token with token
          rcases width_cell_cases depth cell with ⟨rfl, broken, breaks⟩ | inside
          · rw [width_stop marks breaks, width_stop other (token.symm.trans breaks)]
          rw [width_cell marks inside]
          rw [token] at inside ⊢
          rw [width_cell other inside, ih _ same]

theorem lookahead_congr {other : List Mark}
    (same : ∀ depth ∈ cell.start, width depth marks = width depth other) :
    lookahead cell marks = lookahead cell other := by
  cases cell with
  | pendingBreak token => rw [lookahead, lookahead, same 0 rfl]
  | pendingBegin token => exact same 1 rfl
  | _ => rfl

theorem sizes_replace {front : List Cell} (cell found : Cell) (token : cell.token = found.token)
    (size : lookahead cell marks = lookahead found marks) :
    sizes lookahead (front.map .cell ++ .cell cell :: marks) =
      sizes lookahead (front.map .cell ++ .cell found :: marks) := by
  induction front with
  | nil => rw [map_nil, nil_append, nil_append, sizes, sizes, token, size]
  | cons first front ih =>
    rw [map_cons, cons_append, cons_append, sizes]
    congr 2
    apply lookahead_congr
    intro depth _
    apply width_congr
    simp only [map_append, map_cons, Mark.token, token]

/-- A mark that ends the widths before it. -/
def Stops (marks : List Mark) : Prop := width 0 marks = 0

/-- Before an ending mark, `settle` fills in what lookahead finds. -/
theorem sizes_settle (tidy : Tidy cells) (reaches : Reaches cells) (stops : Stops marks) :
    sizes lookahead ((settle cells).map .cell ++ marks) =
      sizes lookahead (cells.map .cell ++ marks) := by
  have both := settle_induction (motive := fun settled => Reaches settled ∧
      sizes lookahead (settled.map .cell ++ marks) = sizes lookahead (cells.map .cell ++ marks))
    tidy.matched ?_ ⟨reaches, rfl⟩
  · exact both.2
  intro before after step both
  refine ⟨both.1.settles step, ?_⟩
  rw [← both.2]
  have at_end : ∀ (depth : ℕ) (front post : List Cell) (cell : Cell),
      Reaches (front ++ cell :: post) → depth ∈ cell.start →
      depthAfter depth post = 0 →
      width depth (post.map .cell ++ marks) = widths post := by
    intro depth front post cell reaches member leads
    rw [width_append (reaches.right.1 depth member), leads, stops, Int.add_zero]
  cases step with
  | ends front post =>
    rw [map_append, map_append, append_assoc, append_assoc]
    exact sizes_replace _ _ rfl rfl
  | begins front token post leads =>
    rw [map_append, map_append, append_assoc, append_assoc]
    apply sizes_replace (.known (.beginToken token) (widths post)) (.pendingBegin token) rfl
    exact (at_end 1 front post _ both.1 rfl leads).symm
  | breaks front token post leads =>
    rw [map_append, map_append, append_assoc, append_assoc]
    apply sizes_replace (.known (.breakToken token) (token.blankSpace + widths post))
      (.pendingBreak token) rfl
    have size := at_end 0 front post _ both.1 rfl leads
    exact congrArg ((token.blankSpace : ℤ) + ·) size.symm

/-- A dropped break inside a group of every pending size is invisible. -/
theorem sizes_dropped (reaches : Reaches cells) (deep : Deep cells) (marks : List Mark) :
    sizes lookahead (cells.map .cell ++ .dropped :: marks) =
      sizes lookahead (cells.map .cell ++ marks) := by
  induction cells with
  | nil => rfl
  | cons cell cells ih =>
    rw [map_cons, cons_append, cons_append, sizes, ih reaches.2 deep.2]
    congr 2
    apply lookahead_congr
    intro depth member
    rw [width_append (reaches.1 depth member), width_append (reaches.1 depth member),
      width_dropped _ (deep.1 depth member)]

/-- A last mark that the next end cannot take back. -/
def Solid : Mark → Prop
  | .cell (.pendingBreak _) => False
  | .cell (.pendingBegin _) => False
  | _ => True

theorem startsGroup_nil : startsGroup [] = false := rfl

variable {mark : Mark}

variable {front older : List Mark}

theorem startsGroup_append (other : ∀ token, mark ≠ .cell (.pendingBegin token)) :
    startsGroup (front ++ mark :: older) = startsGroup front := by
  cases front with
  | cons first front =>
    cases first with
    | dropped => rfl
    | cell cell => cases cell <;> rfl
  | nil =>
    cases mark with
    | dropped => rfl
    | cell cell =>
      cases cell with
      | pendingBegin token => exact absurd rfl (other token)
      | _ => rfl

theorem endMark_break_append {token : BreakToken}
    (starts : startsGroup (front ++ older) = startsGroup front) :
    endMark (.cell (.pendingBreak token) :: (front ++ older)) =
      endMark (.cell (.pendingBreak token) :: front) ++ older := by
  rw [endMark, endMark, starts]
  cases front with
  | nil =>
    rw [startsGroup_nil, if_neg Bool.false_ne_true]
    split <;> rfl
  | cons first front =>
    split
    · rfl
    split
    · rfl
    · rfl

/-- Behind another mark, only the begin of its group can be taken back. -/
theorem scanMark_cons_append (other : ∀ token, mark ≠ .cell (.pendingBegin token)) (first : Mark)
    (front older : List Mark) (token : Token) :
    scanMark (first :: front ++ mark :: older) token =
      scanMark (first :: front) token ++ mark :: older := by
  cases token with
  | endToken =>
    cases first with
    | dropped => rfl
    | cell cell =>
      cases cell with
      | pendingBreak token => exact endMark_break_append (startsGroup_append other)
      | _ => rfl
  | _ => rfl

variable {token : Token}

theorem scanMark_append (solid : Solid mark) :
    scanMark (front ++ mark :: older) token = scanMark front token ++ mark :: older := by
  cases front with
  | cons first front =>
    apply scanMark_cons_append
    rintro token rfl
    exact solid
  | nil =>
    cases token with
    | endToken =>
      cases mark with
      | dropped => rfl
      | cell cell =>
        cases cell with
        | known token size => rfl
        | pendingEnd => rfl
        | _ => exact solid.elim
    | _ => rfl

theorem foldl_scanMark_append (solid : Solid mark) (front older : List Mark) (tokens : List Token) :
    tokens.foldl scanMark (front ++ mark :: older) =
      tokens.foldl scanMark front ++ mark :: older := by
  induction tokens generalizing front with
  | nil => rfl
  | cons token tokens ih => rw [foldl_cons, foldl_cons, scanMark_append solid, ih]

/-- What is scanned after a solid mark does not depend on what is before. -/
theorem scanMarks_solid (solid : ∀ cell, cells.getLast? = some cell → Solid (.cell cell))
    (tokens : List Token) :
    scanMarks (cells.map .cell).reverse tokens = cells.map .cell ++ scanMarks [] tokens := by
  rcases eq_nil_or_concat' cells with rfl | ⟨front, last, rfl⟩
  · rfl
  have appended := foldl_scanMark_append
    (solid last getLast?_concat) [] (front.map .cell).reverse tokens
  rw [nil_append] at appended
  unfold scanMarks
  rw [map_append, map_singleton, reverse_concat, appended,
    reverse_append, reverse_cons, reverse_reverse]

/-- The oldest of some marks ends the widths before it. -/
def Ending (mark : Mark) : Prop := mark = .dropped ∨ ∃ token, mark = .cell (.pendingBreak token)

section

variable (ending : Ending mark)

include ending

theorem Ending.not_begin : ∀ token, mark ≠ .cell (.pendingBegin token) := by
  intro token same
  rcases ending with rfl | ⟨broken, rfl⟩
  · cases same
  · cases same

theorem Ending.stops (marks : List Mark) : Stops (mark :: marks) := by
  rcases ending with rfl | ⟨token, rfl⟩
  · rfl
  · exact width_stop marks rfl

variable {older : List Mark} (inside : startsGroup older = false) (front : List Mark)

include inside

/-- A break that does not open its group stays in place, printed or dropped,
and hides what is before it. -/
theorem scanMark_ending (token : Token) :
    ∃ news last, Ending last ∧ scanMark (front ++ mark :: older) token = news ++ last :: older ∧
      scanMark (front ++ [mark]) token = news ++ [last] := by
  cases front with
  | cons first front =>
    have behind := scanMark_cons_append ending.not_begin first front
    exact ⟨_, mark, ending, behind older token, behind [] token⟩
  | nil =>
    cases token with
    | endToken =>
      rw [scanMark, scanMark]
      rcases ending with rfl | ⟨token, rfl⟩
      · exact ⟨[_], .dropped, .inl rfl, rfl, rfl⟩
      rw [nil_append, nil_append, endMark, endMark, inside]
      rw [if_neg Bool.false_ne_true]
      split
      · exact ⟨[_], .dropped, .inl rfl, rfl, rfl⟩
      · exact ⟨[_], _, .inr ⟨token, rfl⟩, rfl, rfl⟩
    | _ => exact ⟨[_], mark, ending, rfl, rfl⟩

theorem foldl_scanMark_ending (tokens : List Token) : ∃ news last, Ending last ∧
      tokens.foldl scanMark (front ++ mark :: older) = news ++ last :: older ∧
      tokens.foldl scanMark (front ++ [mark]) = news ++ [last] := by
  induction tokens generalizing front mark with
  | nil => exact ⟨front, mark, ending, rfl, rfl⟩
  | cons token tokens ih =>
    obtain ⟨news, last, ending, equal, alone⟩ := scanMark_ending ending inside front token
    rw [foldl_cons, foldl_cons, equal, alone]
    exact ih ending news

end

variable {page : Page}

/-- Two sizes that exceed the line are printed alike. -/
theorem Page.printToken_wide {size other : ℤ}
    (wide : page.space < size) (otherWide : page.space < other) :
    page.printToken token size = page.printToken token other := by
  cases token with
  | beginToken token => simp only [printToken, printBegin, gt_iff_lt, wide, otherWide, if_true]
  | breakToken token =>
    have fits : page.breakFits token size = page.breakFits token other := by
      unfold breakFits
      rw [decide_eq_false (Int.not_le.mpr wide), decide_eq_false (Int.not_le.mpr otherWide)]
    simp only [printToken, printBreak, fits]
  | _ => rfl

/-- A cell is printed with its looked-up size or with one that is as good. -/
theorem printToken_lookahead (bounded : page.Bounded)
    (clear : ∀ depth ∈ cell.start, Clear depth cells) (marks : List Mark)
    (decided : cell.isKnown = true ∨ page.space < widths (cell :: cells)) :
    page.printToken cell.token (lookahead cell (cells.map .cell ++ marks)) =
      page.printToken cell.token cell.printSize := by
  have exceeds := bounded.space_lt
  cases cell with
  | pendingBreak token =>
    apply Page.printToken_wide _ exceeds
    have wide := decided.resolve_left Bool.false_ne_true
    have rest := width_nonneg (depthAfter 0 cells) marks
    rw [widths_cons] at wide
    rw [lookahead, width_append (clear 0 rfl)]
    simp only [Cell.token, Token.width] at wide
    omega
  | pendingBegin token =>
    apply Page.printToken_wide _ exceeds
    have wide := decided.resolve_left Bool.false_ne_true
    have rest := width_nonneg (depthAfter 1 cells) marks
    rw [widths_cons] at wide
    rw [lookahead, width_append (clear 1 rfl)]
    simp only [Cell.token, Token.width] at wide
    omega
  | _ => rfl

variable {flushing : Bool}

theorem stream_printAll (bounded : page.Bounded) (reaches : Reaches cells) (marks : List Mark) :
    printAll page (sizes lookahead (cells.map .cell ++ marks)) =
      (stream flushing page cells).bind fun draft =>
        printAll draft.page (sizes lookahead (draft.cells.map .cell ++ marks)) := by
  induction cells generalizing page flushing with
  | nil => rfl
  | cons cell cells ih =>
    rw [stream]
    split
    next decided =>
      rw [Bool.and_eq_true] at decided
      have size := printToken_lookahead bounded reaches.1 marks (decided.imp_left And.right)
      rw [map_cons, cons_append, sizes, printAll, size, bind_eq_bind, bind_eq_bind, bind_assoc]
      apply Option.bind_congr
      intro next printed
      exact ih (bounded.printToken printed) reaches.2
    next => rfl

theorem flush_printAll (page : Page) (known : ∀ cell ∈ cells, cell.isKnown = true) :
    (flush page cells).map Draft.page = printAll page (sizes lookahead (cells.map .cell)) := by
  induction cells generalizing page with
  | nil => rfl
  | cons cell cells ih =>
    obtain ⟨here, rest⟩ := forall_mem_cons.mp known
    obtain ⟨token, size, rfl⟩ := Cell.exists_known here
    rw [flush, bind_eq_bind, map_bind]
    apply Option.bind_congr
    intro next _
    exact ih next rest

/-- The page of the document that the buffer and the tokens make up. -/
def finish (draft : Draft) (tokens : List Token) : Option Page :=
  printAll draft.page (sizes lookahead (scanMarks (draft.cells.map .cell).reverse tokens))

/-- The abstract printer with what it knows about its buffer. -/
structure Draft.Valid (draft : Draft) : Prop where
  bounded : draft.page.Bounded
  tidy : Tidy draft.cells
  reaches : Reaches draft.cells

variable {draft : Draft}

theorem finish_string (valid : draft.Valid) (text : String) (tokens : List Token) :
    finish draft (.string text :: tokens) =
      (draft.scan (.string text)).bind fun after => finish after tokens := by
  have solid : ∀ printed cells : List Cell, draft.cells ++ [.string text] = printed ++ cells →
      ∀ cell, cells.getLast? = some cell → Solid (.cell cell) := by
    intro printed cells split cell last
    rcases eq_nil_or_concat' cells with rfl | ⟨front, final, rfl⟩
    · cases last
    rw [getLast?_concat, some.injEq] at last
    rw [← append_assoc] at split
    have same := (append_inj' split rfl).2
    rw [← last, ← singleton_inj.mp same]
    trivial
  have marks : scanMarks (draft.cells.map .cell).reverse (.string text :: tokens) =
      (draft.cells ++ [Cell.string text]).map .cell ++ scanMarks [] tokens := by
    have whole := scanMarks_solid (solid [] (draft.cells ++ [Cell.string text]) rfl) tokens
    rw [← whole, map_append, reverse_append]
    rfl
  have pushed : Reaches (draft.cells ++ [.string text]) :=
    valid.reaches.push fun _ same => by cases same
  unfold finish
  rw [marks, scan]
  split
  next empty =>
    rw [empty, bind_map]
    rfl
  next =>
    rw [stream_printAll valid.bounded pushed]
    apply Option.bind_congr
    intro after streamed
    obtain ⟨printed, split⟩ := stream_split streamed
    rw [scanMarks_solid (solid printed _ split)]

theorem startsGroup_settle :
    startsGroup ((settle cells).map .cell).reverse = startsGroup (cells.map .cell).reverse := by
  rw [settle, map_reverse, reverse_reverse, ← map_reverse]
  cases cells.reverse with
  | nil => rfl
  | cons cell back => cases cell <;> rfl

theorem settle_of_startsGroup (starts : startsGroup (cells.map .cell).reverse = true) :
    settle cells = cells := by
  rw [← map_reverse] at starts
  rw [settle, reverse_eq_iff]
  cases listed : cells.reverse with
  | nil => rfl
  | cons cell back =>
    rw [listed] at starts
    cases cell with
    | pendingBegin token => rfl
    | _ => cases starts

theorem finish_break (valid : draft.Valid) (token : BreakToken) (tokens : List Token) :
    finish draft (.breakToken token :: tokens) = (draft.scan (.breakToken token)).bind fun after =>
        finish after tokens := by
  rw [scan, bind_some]
  unfold finish
  rw [map_append, map_singleton, reverse_concat]
  cases starts : startsGroup (draft.cells.map .cell).reverse with
  | true =>
    rw [settle_of_startsGroup starts]
    rfl
  | false =>
    have ending : Ending (.cell (.pendingBreak token)) := .inr ⟨token, rfl⟩
    obtain ⟨news, last, stop, before, alone⟩ := foldl_scanMark_ending ending starts [] tokens
    rw [← startsGroup_settle] at starts
    obtain ⟨others, final, _, after, same⟩ := foldl_scanMark_ending ending starts [] tokens
    rw [alone] at same
    obtain ⟨rfl, one⟩ := append_inj' same rfl
    obtain rfl := singleton_inj.mp one
    rw [nil_append] at before after
    have document : ∀ cells : List Cell, (news ++ last :: (cells.map .cell).reverse).reverse =
          cells.map .cell ++ last :: news.reverse := by
      intro cells
      rw [reverse_append, reverse_cons, reverse_reverse, append_assoc, singleton_append]
    unfold scanMarks
    rw [after, document, sizes_settle valid.tidy valid.reaches
      (stop.stops news.reverse), ← document, ← before]
    rfl

theorem endGroup_break (front : List Cell) (token : BreakToken) :
    endGroup (front ++ [.pendingBreak token]) =
      if startsGroup (front.map .cell).reverse then front.dropLast
      else if token.ifNonempty then front ++ [.pendingEnd]
      else front ++ [.pendingBreak token] ++ [.pendingEnd] := by
  unfold endGroup
  rcases eq_nil_or_concat' front with rfl | ⟨front, last, rfl⟩
  · rfl
  · cases last <;> simp [startsGroup]

/-- Ending a group in the buffer and in the document differ only in the mark
that a dropped break leaves. -/
theorem endMark_cells : endMark (cells.map .cell).reverse = ((endGroup cells).map .cell).reverse ∨
      ∃ front token, cells = front ++ [.pendingBreak token] ∧
        endGroup cells = front ++ [.pendingEnd] ∧
        endMark (cells.map .cell).reverse =
          .cell .pendingEnd :: .dropped :: (front.map .cell).reverse := by
  rcases eq_nil_or_concat' cells with rfl | ⟨front, last, rfl⟩
  · exact .inl rfl
  cases last with
  | pendingBreak token =>
    rw [map_append, map_singleton, reverse_concat, endMark, endGroup_break]
    split
    next =>
      left
      rw [map_dropLast, tail_reverse]
    next =>
      split
      next => exact .inr ⟨front, token, rfl, rfl, rfl⟩
      next => exact .inl (by simp)
  | _ => exact .inl (by simp [endMark, endGroup])

theorem finish_end (valid : draft.Valid) (tokens : List Token) :
    finish draft (.endToken :: tokens) =
      (draft.scan .endToken).bind fun after => finish after tokens := by
  rw [scan]
  split
  next empty =>
    have solid : ∀ cell, [Cell.pendingEnd].getLast? = some cell → Solid (.cell cell) := by
      rintro cell ⟨⟩
      trivial
    have first : scanMarks (([] : List Cell).map .cell).reverse (.endToken :: tokens) =
        .cell .pendingEnd :: scanMarks [] tokens :=
      scanMarks_solid solid tokens
    unfold finish
    rw [empty, bind_map, first]
    rfl
  next =>
    rw [bind_some]
    unfold finish
    have scanned : scanMarks (draft.cells.map .cell).reverse (.endToken :: tokens) =
        scanMarks (endMark (draft.cells.map .cell).reverse) tokens := rfl
    rw [scanned]
    rcases endMark_cells with same | ⟨front, token, split, ended, dropped⟩
    · rw [same]
    rw [dropped, ended]
    have reaches := valid.reaches
    rw [split] at reaches
    have hidden := sizes_dropped reaches.left reaches.deep_of_break
      (.cell .pendingEnd :: scanMarks [] tokens)
    have kept : Solid (.cell .pendingEnd) := trivial
    have visible := foldl_scanMark_append kept [] (front.map .cell).reverse tokens
    have marked := foldl_scanMark_append kept [] (.dropped :: (front.map .cell).reverse) tokens
    rw [nil_append] at visible marked
    unfold scanMarks at hidden ⊢
    rw [marked, map_append, map_singleton, reverse_concat, visible]
    simp only [reverse_append, reverse_cons, reverse_reverse, append_assoc, cons_append, nil_append]
    rw [hidden]

/-- Scanning a token leaves the printed document unchanged. -/
theorem finish_scan {tokens : List Token} {draft : Draft} (valid : draft.Valid) :
    finish draft (token :: tokens) = (draft.scan token).bind fun after => finish after tokens := by
  cases token with
  | string text => exact finish_string valid text tokens
  | breakToken token => exact finish_break valid token tokens
  | endToken => exact finish_end valid tokens
  | beginToken token =>
    rw [scan, bind_some]
    unfold finish
    rw [map_append, map_singleton, reverse_concat]
    rfl

variable {after : Draft} {token : Token}

theorem Page.Bounded.stream (bounded : page.Bounded)
    (streamed : stream flushing page cells = some after) :
    after.page.Bounded := by
  exact stream_induction (motive := fun page _ => page.Bounded)
    (fun _ _ _ _ bounded printed => bounded.printToken printed) bounded
    streamed

theorem Draft.Valid.scan (valid : draft.Valid) (scanned : draft.scan token = some after) :
    after.Valid where
  bounded := by
    cases scans scanned with
    | prints _ _ printed => exact valid.bounded.printToken printed
    | streams _ _ streamed => exact valid.bounded.stream streamed
    | _ => exact valid.bounded
  tidy := valid.tidy.scan scanned
  reaches := valid.reaches.scan valid.tidy scanned

/-- The groups that are open: printed or still buffered. -/
def Draft.depth (draft : Draft) : ℕ := depthAfter draft.page.printStack.length draft.cells

theorem Page.printToken_depth {after : Page} {size : ℤ}
    (printed : page.printToken token size = some after) :
    after.printStack.length = token.nest page.printStack.length := by
  cases token with
  | string text =>
    obtain ⟨out, rfl⟩ := printString_eq printed
    rfl
  | breakToken token =>
    obtain ⟨out, pendingIndentation, space, rfl, _⟩ := printBreak_eq printed
    rfl
  | beginToken token =>
    obtain ⟨frame, indent, rfl, _⟩ := printBegin_eq printed
    rfl
  | endToken =>
    obtain ⟨frame, rest, indent, stack, rfl⟩ := printEnd_eq printed
    rw [stack]
    rfl

theorem stream_depth (streamed : stream flushing page cells = some after) :
    after.depth = depthAfter page.printStack.length cells := by
  apply stream_induction (motive := fun rest cells' =>
    depthAfter rest.printStack.length cells' =
      depthAfter page.printStack.length cells) _ rfl streamed
  intro _ cell _ next same printed
  rw [Page.printToken_depth printed, ← same, depthAfter_cons]

theorem endGroup_depth (depth : ℕ) (cells : List Cell) :
    depthAfter depth (endGroup cells) = depthAfter depth cells - 1 := by
  rcases endGroup_cases cells with grouped |
    ⟨front, token, rfl, grouped⟩ | ⟨front, begins, token, rfl, grouped⟩
  · rw [grouped, depthAfter_append]
    rfl
  · rw [grouped, depthAfter_append, depthAfter_append]
    rfl
  · rw [grouped, depthAfter_append]
    rfl

theorem Draft.scan_depth (scanned : draft.scan token = some after) :
    after.depth = token.nest draft.depth := by
  unfold depth
  cases scans scanned with
  | prints empty _ printed =>
    rw [Page.printToken_depth printed, empty]
    rfl
  | streams text _ streamed =>
    rw [← depth, stream_depth streamed, depthAfter_append]
    rfl
  | breaks token =>
    rw [depthAfter_append, depthAfter_congr (settle_map_token draft.cells)]
    rfl
  | begins token =>
    rw [depthAfter_append]
    rfl
  | ends => exact endGroup_depth _ _

variable {tokens : List Token} {depth : ℕ}

theorem wellNested_cons (nested : WellNested depth (token :: tokens) = true) :
    WellNested (token.nest depth) tokens = true := by
  cases token with
  | endToken =>
    cases depth with
    | zero => cases nested
    | succ depth => exact nested
  | _ => exact nested

theorem depthAfter_mono {few many : ℕ} (less : few ≤ many)
    (cells : List Cell) : depthAfter few cells ≤ depthAfter many cells := by
  induction cells generalizing few many with
  | nil => exact less
  | cons cell cells ih =>
    rw [depthAfter_cons, depthAfter_cons]
    apply ih
    cases cell.token with
    | beginToken token => exact Nat.succ_le_succ less
    | endToken => exact Nat.sub_le_sub_right less 1
    | _ => exact less

theorem known_of_deep (deep : Deep cells) (closed : depthAfter depth cells = 0) :
    ∀ cell ∈ cells, cell.isKnown = true := by
  induction cells generalizing depth with
  | nil => exact forall_mem_nil _
  | cons first cells ih =>
    rw [depthAfter_cons] at closed
    have outside : ∀ start ∈ first.start, start ≤ first.token.nest depth → False := by
      intro start member less
      have inside := deep.1 start member
      have more := depthAfter_mono less cells
      omega
    refine forall_mem_cons.mpr ⟨?_, ih deep.2 closed⟩
    cases first with
    | known token size => rfl
    | pendingBegin token => exact (outside 1 rfl (succ_le_succ (zero_le _))).elim
    | _ => exact (outside 0 rfl (zero_le _)).elim

theorem Represents.scanAll_eof {printer : Printer} (represents : Represents printer cells)
    (valid : Draft.Valid { page := printer.page, cells })
    (nested : WellNested (Draft.depth { page := printer.page, cells }) tokens = true) :
    (printer.scanAll tokens).bind Printer.eof =
      (finish { page := printer.page, cells } tokens).map Page.out := by
  induction tokens generalizing printer cells with
  | nil =>
    have closed : depthAfter printer.page.printStack.length (settle cells) = 0 := by
      rw [depthAfter_congr (settle_map_token cells)]
      exact of_decide_eq_true nested
    have known := known_of_deep (valid.tidy.deep_settle valid.reaches) closed
    have ended : Stops [] := rfl
    have settled := sizes_settle valid.tidy valid.reaches ended
    have flushed := flush_printAll printer.page known
    have document : finish { page := printer.page, cells } [] =
        (flush printer.page (settle cells)).map page := by
      unfold finish scanMarks
      rw [append_nil, append_nil] at settled
      rw [foldl_nil, reverse_reverse, ← settled, flushed]
    rw [document, Printer.scanAll, bind_some, Printer.eof]
    have refines := represents.scanEof valid.tidy
    generalize printer.scanEof = finished at refines
    generalize flush printer.page (settle cells) = draft at refines
    cases refines with
    | none => rfl
    | some related => rw [map_some, map_some, map_some, related.1]
  | cons token tokens ih =>
    have refines := represents.scan valid.tidy token
    rw [finish_scan valid, Printer.scanAll, bind_eq_bind]
    cases scanned : Draft.scan { page := printer.page, cells } token with
    | none =>
      rw [scanned] at refines
      generalize printer.scan token = next at refines
      cases refines
      rfl
    | some draft =>
      rw [scanned] at refines
      generalize printer.scan token = next at refines
      cases refines with
      | @some next _ related =>
        have same : draft = { page := next.page, cells := draft.cells } := by rw [related.1]
        have nestedAfter := wellNested_cons nested
        have validAfter := valid.scan scanned
        rw [← scan_depth scanned] at nestedAfter
        rw [same] at validAfter nestedAfter
        rw [same]
        exact ih related.2 validAfter nestedAfter

/-- The streaming printer and the one with unlimited lookahead print the same
text, or both panic. -/
theorem scanAll_eof_eq_naive (margin : ℕ) (useTabWithSize : Option ℕ)
    (tokens : List Token) (nested : WellNested 0 tokens = true) :
    ((Printer.new margin useTabWithSize).scanAll tokens).bind Printer.eof =
      naive margin useTabWithSize tokens := by
  have valid : Valid { page := Page.new margin useTabWithSize, cells := [] } :=
    ⟨Page.bounded_new margin useTabWithSize, Tidy.nil, trivial⟩
  exact (represents_new).scanAll_eof valid nested

def droppedBreak : List Token :=
  [.ibox 0, .word "thirty-character-wide-first-wd", .space, .word "four",
    .hardbreakIfNonempty, .endToken, .word "ten-column"]

theorem scanAll_eof_eq_naive_droppedBreak :
    naive 40 none droppedBreak = some "thirty-character-wide-first-wd fourten-column" := by
  rw [← scanAll_eof_eq_naive 40 none droppedBreak (by decide)]
  decide +kernel

/-- The dropped break still ends the widths before it, so the space does not
break although the text up to the end does not fit. -/
theorem scanAll_eof_ne_plainNaive : WellNested 0 droppedBreak = true ∧
      ((Printer.new 40 none).scanAll droppedBreak).bind Printer.eof =
        some "thirty-character-wide-first-wd fourten-column" ∧
      plainNaive 40 none droppedBreak = some "thirty-character-wide-first-wd\nfourten-column" := by
  refine ⟨by decide, ?_, ?_⟩ <;> decide +kernel

end SwissledgerFoundry.Fmt
