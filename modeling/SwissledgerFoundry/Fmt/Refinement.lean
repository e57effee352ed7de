import SwissledgerFoundry.Collections.Loop
import SwissledgerFoundry.Fmt.Tidy

/-!
# The streaming printer refines the abstract one

The scan stack lists the indices of the pending cells, a pending group or
break stores its distance from the origin of the running totals, and the
difference of the totals is the width of the buffer.
-/

namespace Option

variable {First Second Third Fourth : Type*} {relation : First → Second → Prop}

/-- Related computations stay related under related continuations. -/
theorem Rel.bind {first : Option First} {second : Option Second} {next : Third → Fourth → Prop}
    {continue₁ : First → Option Third} {continue₂ : Second → Option Fourth}
    (related : Option.Rel relation first second)
    (continued : ∀ left right, second = Option.some right → relation left right →
      Option.Rel next (continue₁ left) (continue₂ right)) :
    Option.Rel next (first.bind continue₁) (second.bind continue₂) := by
  cases related with
  | none => exact .none
  | some related => exact continued _ _ rfl related

theorem Rel.exists_of_some {left : First} {second : Option Second}
    (related : Option.Rel relation (Option.some left) second) :
    ∃ right, second = Option.some right ∧ relation left right := by
  cases related with
  | some related => exact ⟨_, rfl, related⟩

end Option

namespace SwissledgerFoundry.Fmt

open List Option Int

/-- The buffer entry of a cell at a distance from the origin. -/
def Cell.entry (position : ℤ) : Cell → BufEntry
  | .known token size => { token, size }
  | .pendingBreak token => { token := .breakToken token, size := -position }
  | .pendingBegin token => { token := .beginToken token, size := -position }
  | .pendingEnd => { token := .endToken, size := -1 }

variable (position : ℤ)

@[simp] theorem Cell.entry_token (cell : Cell) : (cell.entry position).token = cell.token := by
  cases cell <;> rfl

def entries : ℤ → List Cell → List BufEntry
  | _, [] => []
  | position, cell :: cells => cell.entry position :: entries (position + cell.token.width) cells

def pendingIndices : ℕ → List Cell → List ℕ
  | _, [] => []
  | index, cell :: cells =>
    if cell.isKnown then pendingIndices (index + 1) cells
    else index :: pendingIndices (index + 1) cells

@[simp] theorem entries_append (front rest : List Cell) :
    entries position (front ++ rest) =
      entries position front ++ entries (position + widths front) rest := by
  induction front generalizing position with
  | nil => simp [entries]
  | cons cell front ih => simp [entries, ih, add_assoc]

@[simp] theorem length_entries (cells : List Cell) :
    (entries position cells).length = cells.length := by
  induction cells generalizing position with
  | nil => rfl
  | cons cell cells ih => simp [entries, ih]

variable {index : ℕ}

@[simp] theorem pendingIndices_append {front rest : List Cell} :
    pendingIndices index (front ++ rest) =
      pendingIndices index front ++ pendingIndices (index + front.length) rest := by
  induction front generalizing index with
  | nil => rfl
  | cons cell front ih =>
    have next : index + 1 + front.length = index + (front.length + 1) := by omega
    cases known : cell.isKnown <;> simp [pendingIndices, known, ih, next]

theorem map_token_entries (cells : List Cell) :
    (entries position cells).map BufEntry.token = cells.map Cell.token := by
  induction cells generalizing position with
  | nil => rfl
  | cons cell cells ih => simp [entries, ih]

/-- A known size is not negative, and that of a string is its length. -/
def Cell.Sized : Cell → Prop
  | .known (.string text) size => size = text.utf8ByteSize
  | .known _ size => 0 ≤ size
  | _ => True

variable {token : Token} {size : ℤ}

theorem Cell.Sized.nonneg (sized : (Cell.known token size).Sized) : 0 ≤ size := by
  cases token with
  | string text =>
    have same : size = text.utf8ByteSize := sized
    rw [same]
    exact natCast_nonneg _
  | _ => exact sized

variable {cells : List Cell}

theorem Tidy.settle_sized (tidy : Tidy cells) (sized : ∀ cell ∈ cells, cell.Sized) :
    ∀ cell ∈ settle cells, cell.Sized := by
  apply settle_induction (motive := fun cells => ∀ cell ∈ cells, cell.Sized) tidy.matched _ sized
  intro before after settles
  cases settles
  all_goals
    rw [forall_mem_append, forall_mem_append, forall_mem_cons, forall_mem_cons]
    rintro ⟨earlier, _, later⟩
    refine ⟨earlier, ?_, later⟩
  case ends => exact Int.one_nonneg
  case begins => exact widths_nonneg _
  case breaks => exact add_nonneg (natCast_nonneg _) (widths_nonneg _)

/-- The printer's buffer, scan stack and totals stand for the cells. -/
structure Represents (printer : Printer) (cells : List Cell) : Prop where
  data : printer.buf.data = entries printer.leftTotal cells
  stack : printer.scanStack = pendingIndices printer.buf.offset cells
  total : printer.rightTotal = printer.leftTotal + widths cells
  sized : ∀ cell ∈ cells, cell.Sized
  positive : cells ≠ [] → 1 ≤ printer.leftTotal

/-- Both computations panic, or their results stand for each other. -/
def Refines : Option Printer → Option Draft → Prop :=
  Option.Rel fun printer draft => printer.page = draft.page ∧ Represents printer draft.cells

theorem pendingIndices_eq_nil (none : pendingIndices index cells = []) :
    ∀ cell ∈ cells, cell.isKnown = true := by
  induction cells generalizing index with
  | nil => exact forall_mem_nil _
  | cons first cells ih =>
    rw [pendingIndices] at none
    split at none
    next known => exact forall_mem_cons.mpr ⟨known, ih none⟩
    next => cases none

variable {printer : Printer}

theorem Represents.stack_isEmpty (represents : Represents printer cells) (tidy : Tidy cells) :
    printer.scanStack.isEmpty = true ↔ cells = [] := by
  rw [List.isEmpty_iff, represents.stack]
  constructor
  · intro none
    rcases tidy.ready with empty | ⟨⟨cell, member, pending⟩, _⟩
    · exact empty
    · simp [pendingIndices_eq_nil none cell member] at pending
  intro empty
  rw [empty]
  rfl

section CheckStack

variable (position : ℤ) (offset : ℕ) (back : List Cell) (cell : Cell)
  (done : List BufEntry)

theorem get_concat :
    (RingBuffer.mk (entries position (back ++ [cell]) ++ done) offset).get (offset + back.length) =
      some (cell.entry (position + widths back)) := by
  rw [entries_append, append_assoc]
  rw [← length_entries position back]
  exact RingBuffer.get_append _ _ _ _

theorem modify_concat (change : BufEntry → BufEntry) :
    (RingBuffer.mk (entries position (back ++ [cell]) ++ done) offset).modify
        (offset + back.length) change =
      some ⟨entries position back ++
        change (cell.entry (position + widths back)) :: done, offset⟩ := by
  rw [entries_append, append_assoc]
  rw [← length_entries position back]
  exact RingBuffer.modify_append _ _ _ _ _

end CheckStack

theorem checkStackLoop_eq (offset depth : ℕ) (rightTotal after : ℤ)
    (back : List Cell) (done : List BufEntry)
    (total : rightTotal = position + widths back.reverse + after) :
    Printer.checkStackLoop rightTotal depth (pendingIndices offset back.reverse).reverse
        ⟨entries position back.reverse ++ done, offset⟩ =
      some ((pendingIndices offset (settleBack depth after back).reverse).reverse,
        ⟨entries position (settleBack depth after back).reverse ++ done, offset⟩) := by
  induction back generalizing depth after done with
  | nil => rfl
  | cons cell back ih =>
    rw [reverse_cons] at total ⊢
    replace total : rightTotal = position + widths back.reverse + (cell.token.width + after) := by
      rw [total, widths_append, widths_cons, widths_nil]
      omega
    have known_entry : ∀ (token : Token) (size : ℤ) (front : List Cell),
        entries position (front ++ [.known token size]) ++ done =
          entries position front ++ { token, size } :: done := by
      intro token size front
      rw [entries_append, append_assoc]
      rfl
    have known_indices : ∀ (token : Token) (size : ℤ) (front : List Cell),
        pendingIndices offset (front ++ [.known token size]) = pendingIndices offset front := by
      intro token size front
      rw [pendingIndices_append]
      exact append_nil _
    have pending_indices : cell.isKnown = false →
        (pendingIndices offset (back.reverse ++ [cell])).reverse =
          (offset + back.reverse.length) :: (pendingIndices offset back.reverse).reverse := by
      intro pending
      simp [pendingIndices, pending]
    cases cell with
    | known token size =>
      rw [settleBack, reverse_cons, known_entry, known_entry, known_indices, known_indices]
      exact ih _ _ _ total
    | pendingEnd =>
      rw [Cell.token, Token.width, zero_add] at total
      rw [settleBack, reverse_cons, known_entry, known_indices, pending_indices rfl]
      unfold Printer.checkStackLoop
      simp only [get_concat, Cell.entry, bind_eq_bind, bind_some, modify_concat]
      exact ih _ _ _ total
    | pendingBegin token =>
      rw [Cell.token, Token.width, zero_add] at total
      rw [pending_indices rfl]
      unfold Printer.checkStackLoop
      simp only [get_concat, Cell.entry, bind_eq_bind, bind_some]
      cases depth with
      | zero => rw [settleBack, reverse_cons, pending_indices rfl]
      | succ depth =>
        rw [settleBack, reverse_cons, known_entry, known_indices, modify_concat]
        have size : -(position + widths back.reverse) + rightTotal =
            after := by
          omega
        simp only [bind_some, Cell.entry, size]
        exact ih _ _ _ total
    | pendingBreak token =>
      rw [Cell.token, Token.width] at total
      have size : -(position + widths back.reverse) + rightTotal = token.blankSpace + after := by
        omega
      rw [pending_indices rfl]
      unfold Printer.checkStackLoop
      simp only [get_concat, Cell.entry, bind_eq_bind, bind_some, modify_concat, size]
      cases depth with
      | zero => rw [settleBack, reverse_cons, known_entry, known_indices]
      | succ depth =>
        rw [settleBack, reverse_cons, known_entry, known_indices]
        exact ih _ _ _ total

theorem Represents.checkStack (represents : Represents printer cells) (tidy : Tidy cells) :
    ∃ settled, printer.checkStack 0 = some settled ∧
      Represents settled (settle cells) ∧ settled.page = printer.page := by
  have looped := checkStackLoop_eq printer.leftTotal printer.buf.offset 0
    printer.rightTotal 0 cells.reverse [] (by rw [reverse_reverse, represents.total, add_zero])
  rw [append_nil, append_nil, reverse_reverse, ← represents.stack, ← represents.data] at looped
  have checked : printer.checkStack 0 = some
      { printer with
        scanStack := pendingIndices printer.buf.offset (settle cells)
        buf := ⟨entries printer.leftTotal (settle cells), printer.buf.offset⟩ } := by
    unfold Printer.checkStack
    rw [looped, bind_eq_bind, bind_some]
    dsimp only
    rw [reverse_reverse]
    rfl
  refine ⟨_, checked, ?_, rfl⟩
  constructor
  · rfl
  · rfl
  · rw [widths_congr (settle_map_token cells)]
    exact represents.total
  · exact tidy.settle_sized represents.sized
  intro nonempty
  apply represents.positive
  rintro rfl
  exact nonempty rfl

theorem Represents.printFirst (represents : Represents printer (.known token size :: cells)) :
    Refines printer.printFirst ((printer.page.printToken token size).map fun page =>
        { page, cells }) := by
  have popped : printer.buf.popFirst = some ({ token, size },
        ⟨entries (printer.leftTotal + token.width) cells, printer.buf.offset + 1⟩) := by
    unfold RingBuffer.popFirst
    rw [represents.data]
    rfl
  have advanced : Printer.passed { token, size } = token.width := by
    cases token with
    | string text => exact represents.sized _ mem_cons_self
    | _ => rfl
  unfold Printer.printFirst
  rw [popped, bind_eq_bind, bind_some]
  dsimp only
  cases printer.page.printToken token size with
  | none => exact .none
  | some page =>
    refine .some ⟨rfl, ?_⟩
    rw [advanced]
    have positive := represents.positive (cons_ne_nil _ _)
    have stack := represents.stack
    have total := represents.total
    have width := token.width_nonneg
    constructor
    · rfl
    · exact stack
    · rw [widths_cons] at total
      simp only [Cell.token] at total ⊢
      omega
    · exact (forall_mem_cons.mp represents.sized).2
    intro _
    dsimp only
    omega

theorem Represents.isEmpty (represents : Represents printer cells) :
    printer.buf.isEmpty = cells.isEmpty := by
  unfold RingBuffer.isEmpty
  rw [represents.data]
  cases cells <;> rfl

theorem Represents.len (represents : Represents printer cells) :
    printer.buf.len = cells.length := by
  unfold RingBuffer.len
  rw [represents.data, length_entries]

variable {cell : Cell}

theorem Cell.entry_size_neg {position : ℤ} (pending : cell.isKnown = false)
    (positive : 1 ≤ position) :
    (cell.entry position).size < 0 := by
  cases cell with
  | known token size => cases pending
  | _ =>
    simp only [Cell.entry]
    omega

theorem flush_pending {page : Page} (pending : cell.isKnown = false) :
    flush page (cell :: cells) = some { page, cells := cell :: cells } := by
  cases cell with
  | known token size => cases pending
  | _ => rfl

theorem Represents.advanceLeftLoop {fuel : ℕ} (represents : Represents printer cells)
    (nonempty : cells ≠ []) (enough : cells.length ≤ fuel) :
    Refines (Printer.advanceLeftLoop fuel printer) (flush printer.page cells) := by
  induction cells generalizing fuel printer with
  | nil => exact absurd rfl nonempty
  | cons cell cells ih =>
    cases fuel with
    | zero => cases enough
    | succ fuel =>
      have first : printer.buf.first = some (cell.entry printer.leftTotal) := by
        unfold RingBuffer.first
        rw [represents.data]
        rfl
      rw [Printer.advanceLeftLoop, first, bind_eq_bind, bind_some]
      cases known : cell.isKnown with
      | false =>
        have positive := represents.positive nonempty
        rw [if_pos (Cell.entry_size_neg known positive), flush_pending known]
        exact .some ⟨rfl, represents⟩
      | true =>
        obtain ⟨token, size, rfl⟩ := Cell.exists_known known
        have sized := represents.sized _ mem_cons_self
        rw [Cell.entry, if_neg (not_lt.mpr sized.nonneg), flush, bind_eq_bind, bind_eq_bind]
        have printed := represents.printFirst
        have unmapped : (printer.page.printToken token size).bind (fun page => flush page cells) =
            ((printer.page.printToken token size).map fun page => Draft.mk page cells).bind
              fun draft => flush draft.page draft.cells := by
          simp [bind_map]
        rw [unmapped]
        apply printed.bind
        intro next draft mapped related
        obtain ⟨page, _, rfl⟩ := map_eq_some_iff.mp mapped
        rw [related.2.isEmpty]
        cases cells with
        | nil => exact .some related
        | cons second cells =>
          rw [← related.1]
          exact ih related.2 (cons_ne_nil _ _) (Nat.le_of_succ_le_succ enough)

theorem Represents.advanceLeft (represents : Represents printer cells) (nonempty : cells ≠ []) :
    Refines printer.advanceLeft (flush printer.page cells) :=
  represents.advanceLeftLoop nonempty (Nat.le_of_eq represents.len.symm)

theorem flush_split {page : Page} {after : Draft} (flushed : flush page cells = some after) :
    ∃ printed, cells = printed ++ after.cells ∧
      (after.cells = [] ∨ ∃ cell rest, after.cells = cell :: rest ∧ cell.isKnown = false) := by
  induction cells generalizing page with
  | nil =>
    cases flushed
    exact ⟨[], rfl, .inl rfl⟩
  | cons cell cells ih =>
    cases known : cell.isKnown with
    | false =>
      rw [flush_pending known] at flushed
      cases flushed
      exact ⟨[], rfl, .inr ⟨cell, cells, rfl, known⟩⟩
    | true =>
      obtain ⟨token, size, rfl⟩ := Cell.exists_known known
      obtain ⟨next, _, flushed⟩ := bind_eq_some_iff.mp flushed
      obtain ⟨printed, split, stop⟩ := ih flushed
      refine ⟨.known token size :: printed, ?_, stop⟩
      rw [split, cons_append]

theorem stream_flushing (page : Page) (cells : List Cell) : stream true page cells =
      (flush page cells).bind fun draft =>
        stream false draft.page draft.cells := by
  induction cells generalizing page with
  | nil => rfl
  | cons cell cells ih =>
    cases cell with
    | known token size =>
      rw [flush, bind_eq_bind, bind_assoc]
      apply Option.bind_congr
      intro page _
      exact ih page
    | _ => rfl

theorem pendingIndices_ne {start : ℕ} (member : index ∈ pendingIndices start cells) :
    start ≤ index := by
  induction cells generalizing start with
  | nil => cases member
  | cons cell cells ih =>
    rw [pendingIndices] at member
    split at member
    · exact Nat.le_of_succ_le (ih member)
    cases member with
    | head => exact Nat.le_refl _
    | tail _ member => exact Nat.le_of_succ_le (ih member)

/-- A pending first cell is given up on; a known one is left as it is. -/
theorem Represents.forceFirst (represents : Represents printer (cell :: cells))
    (pending : ∃ other ∈ cell :: cells, other.isKnown = false) :
    ∃ forced, printer.forceFirst = some forced ∧ forced.page = printer.page ∧
      Represents forced (.known cell.token cell.printSize :: cells) := by
  unfold Printer.forceFirst
  cases known : cell.isKnown with
  | true =>
    have stack : printer.scanStack = pendingIndices (printer.buf.offset + 1) cells := by
      rw [represents.stack, pendingIndices, if_pos known]
    have same : cell = .known cell.token cell.printSize := by
      obtain ⟨token, size, rfl⟩ := Cell.exists_known known
      rfl
    cases listed : printer.scanStack with
    | nil =>
      obtain ⟨other, member, unknown⟩ := pending
      rw [represents.stack] at listed
      simp [pendingIndices_eq_nil listed other member] at unknown
    | cons front rest =>
      rw [listed] at stack
      have bound := pendingIndices_ne (stack ▸ mem_cons_self)
      have later : front ≠ printer.buf.offset := by omega
      rw [head?_cons, bind_eq_bind, bind_some, RingBuffer.start, if_neg later]
      refine ⟨printer, rfl, rfl, ?_⟩
      rw [← same]
      exact represents
  | false =>
    have stack : printer.scanStack = printer.buf.offset ::
        pendingIndices (printer.buf.offset + 1) cells := by
      simp [represents.stack, pendingIndices, known]
    have modified : (printer.buf.modifyFirst fun entry =>
        { entry with size := sizeInfinity }) = some
        ⟨{ token := cell.token, size := sizeInfinity } ::
          entries (printer.leftTotal + cell.token.width) cells,
          printer.buf.offset⟩ := by
      unfold RingBuffer.modifyFirst
      rw [represents.data, entries]
      dsimp only
      rw [Cell.entry_token]
    -- No string is given up on, and the other sizes are not negative.
    have given : cell.printSize = sizeInfinity ∧ (Cell.known cell.token sizeInfinity).Sized := by
      cases cell with
      | known token size => cases known
      | _ => exact ⟨rfl, natCast_nonneg _⟩
    rw [stack, head?_cons, bind_eq_bind, bind_some, RingBuffer.start, if_pos rfl, modified]
    refine ⟨_, rfl, rfl, ?_⟩
    rw [given.1]
    have later := (forall_mem_cons.mp represents.sized).2
    exact ⟨rfl, rfl, represents.total, forall_mem_cons.mpr ⟨given.2, later⟩,
      fun _ => represents.positive (cons_ne_nil _ _)⟩

theorem Represents.checkStreamLoop {fuel : ℕ} (represents : Represents printer cells)
    (pending : ∃ cell ∈ cells, cell.isKnown = false)
    (enough : cells.length ≤ fuel) :
    Refines (Printer.checkStreamLoop fuel printer) (stream false printer.page cells) := by
  induction fuel, cells using Loop.worklist generalizing printer with
  | nil fuel =>
    obtain ⟨cell, member, _⟩ := pending
    cases member
  | zero cell cells => cases enough
  | succ fuel cell cells ih =>
    have difference : printer.rightTotal - printer.leftTotal = widths (cell :: cells) := by
      rw [represents.total]
      omega
    rw [Printer.checkStreamLoop, difference, stream]
    by_cases exceeds : printer.page.space < widths (cell :: cells)
    · obtain ⟨forced, equal, samePage, represented⟩ := represents.forceFirst pending
      have advanced := represented.advanceLeft (cons_ne_nil _ _)
      rw [if_pos exceeds, if_pos (.inr exceeds), equal]
      rw [samePage] at advanced
      have printing : ((printer.page.printToken cell.token cell.printSize).bind
            fun page => stream true page cells) =
          (flush printer.page (.known cell.token cell.printSize :: cells)).bind
            fun draft => stream false draft.page draft.cells := by
        rw [flush, bind_eq_bind, bind_assoc]
        apply Option.bind_congr
        intro page _
        exact stream_flushing page cells
      rw [bind_eq_bind, bind_eq_bind, printing]
      apply advanced.bind
      intro next draft flushed related
      obtain ⟨printed, split, stop⟩ := flush_split flushed
      rw [related.2.isEmpty]
      rcases stop with empty | ⟨first, rest, listed, unknown⟩
      · rw [empty]
        refine .some ⟨related.1, ?_⟩
        have here := related.2
        rw [empty] at here
        exact here
      rw [listed, ← related.1]
      have here := related.2
      rw [listed] at here split
      apply ih _ here ⟨first, mem_cons_self, unknown⟩
      cases printed with
      | nil =>
        injection split with same _
        rw [← same] at unknown
        cases unknown
      | cons head printed =>
        injection split with _ split
        rw [split] at enough
        simp only [append_eq, length_cons, length_append] at enough ⊢
        omega
    rw [if_neg exceeds, if_neg]
    · exact .some ⟨rfl, represents⟩
    · rw [not_or]
      exact ⟨Bool.false_ne_true, exceeds⟩

theorem Represents.reset (represents : Represents printer []) :
    Represents printer.resetTotals [] where
  data := rfl
  stack := represents.stack
  total := rfl
  sized := represents.sized
  positive := fun _ => le_refl 1

theorem Represents.pushUnknown (represents : Represents printer cells)
    (cell : Cell) (pending : cell.isKnown = false)
    (positive : 1 ≤ printer.leftTotal) :
    Represents
      { printer.pushUnknown cell.token
          (cell.entry printer.rightTotal).size with
        rightTotal := printer.rightTotal + cell.token.width }
      (cells ++ [cell]) where
  data := by
    simp only [Printer.pushUnknown, RingBuffer.push, entries_append,
      represents.data, represents.total, entries]
    cases cell <;> rfl
  stack := by
    simp only [Printer.pushUnknown, RingBuffer.push, pendingIndices_append,
      represents.data, represents.stack, length_entries, pendingIndices,
      pending]
    rfl
  total := by
    rw [widths_append, widths_cons, widths_nil, represents.total]
    simp only [Printer.pushUnknown]
    omega
  sized := by
    rw [forall_mem_append, forall_mem_singleton]
    refine ⟨represents.sized, ?_⟩
    cases cell with
    | known token size => cases pending
    | _ => trivial
  positive := fun _ => positive

theorem Represents.popLast (represents : Represents printer (cells ++ [cell]))
    (pending : cell.isKnown = false) :
    ∃ buf, printer.buf.popLast = some buf ∧ Represents
        { printer with
          buf
          scanStack := printer.scanStack.dropLast
          rightTotal := printer.rightTotal - cell.token.width }
        cells := by
  have listed : printer.buf = ⟨entries printer.leftTotal cells ++
      [cell.entry (printer.leftTotal + widths cells)],
      printer.buf.offset⟩ := by
    have data := represents.data
    rw [entries_append, entries, entries] at data
    rw [← data]
  refine ⟨⟨entries printer.leftTotal cells, printer.buf.offset⟩, ?_, ?_⟩
  · rw [listed]
    exact RingBuffer.popLast_concat _ _ _
  constructor
  · rfl
  · have stack := represents.stack
    rw [pendingIndices_append] at stack
    simp only [pendingIndices, pending, Bool.false_eq_true, if_false] at stack
    rw [stack, dropLast_concat]
  · have total := represents.total
    rw [widths_append, widths_cons, widths_nil] at total
    dsimp only
    omega
  · exact (forall_mem_append.mp represents.sized).1
  · exact fun _ => represents.positive (concat_ne_nil _ _)

section

variable (represents : Represents printer cells)

include represents

theorem Represents.last : printer.buf.last.map BufEntry.token = cells.getLast?.map Cell.token := by
  unfold RingBuffer.last
  rw [represents.data, ← getLast?_map, map_token_entries, getLast?_map]

theorem Represents.secondLast :
    printer.buf.secondLast.map BufEntry.token = cells.dropLast.getLast?.map Cell.token := by
  unfold RingBuffer.secondLast
  rw [represents.data, ← getLast?_map, map_dropLast,
    map_token_entries, ← map_dropLast, getLast?_map]

theorem Represents.pushEnd (positive : 1 ≤ printer.leftTotal) :
    Represents (printer.pushUnknown .endToken (-1)) (cells ++ [.pendingEnd]) := by
  have pushed := represents.pushUnknown .pendingEnd rfl positive
  simp only [Cell.token, Token.width, add_zero] at pushed
  exact pushed

theorem Represents.scanEnd (tidy : Tidy cells) (nonempty : cells ≠ []) :
    ∃ after, printer.scanEnd = some after ∧ after.page = printer.page ∧
      Represents after (Draft.endGroup cells) := by
  have positive := represents.positive nonempty
  have busy := mt (represents.stack_isEmpty tidy).mp nonempty
  have pushed := represents.pushEnd positive
  have closed : ∀ {result : Option Printer}, result = some (printer.pushUnknown .endToken (-1)) →
      Draft.endGroup cells = cells ++ [.pendingEnd] →
      ∃ after, result = some after ∧ after.page = printer.page ∧
        Represents after (Draft.endGroup cells) := by
    intro result equal grouped
    refine ⟨_, equal, rfl, ?_⟩
    rw [grouped]
    exact pushed
  obtain ⟨front, last, rfl⟩ := (eq_nil_or_concat' cells).resolve_left nonempty
  unfold Printer.scanEnd
  rw [if_neg busy, represents.last, represents.secondLast,
    getLast?_concat, dropLast_concat, map_some]
  cases last with
  | known token size =>
    cases token with
    | breakToken token =>
      exfalso
      rcases tidy.ready with empty | ready
      · exact nonempty empty
      · exact ready.2 token size getLast?_concat
    | _ => exact closed rfl (by simp [Draft.endGroup])
  | pendingBreak token =>
    obtain ⟨buf, popped, shorter⟩ := represents.popLast rfl
    have taken : printer.popBreak token = some
        { printer with
          buf
          scanStack := printer.scanStack.dropLast
          rightTotal := printer.rightTotal - token.blankSpace } := by
      unfold Printer.popBreak
      simp [popped]
    -- The group stays unless the break is all it holds.
    have kept : (∀ begins, front.getLast? ≠ some (.pendingBegin begins)) →
        ∃ after, (do
            let printer ←
              if token.ifNonempty = true then printer.popBreak token
              else some printer
            some (printer.pushUnknown .endToken (-1))) = some after ∧
          after.page = printer.page ∧
          Represents after (Draft.endGroup (front ++ [.pendingBreak token])) := by
      intro other
      rw [Draft.endGroup_break other]
      cases token.ifNonempty with
      | false => exact ⟨_, rfl, rfl, pushed⟩
      | true =>
        rw [taken]
        exact ⟨_, rfl, rfl, shorter.pushEnd positive⟩
    simp only [Cell.token]
    rcases eq_nil_or_concat' front with rfl | ⟨front, previous, rfl⟩
    · apply kept
      intro begins listed
      cases listed
    rw [getLast?_concat] at kept ⊢
    cases previous with
    | known previous size =>
      cases previous with
      | beginToken begins =>
        exfalso
        have matched := tidy.matched
        rw [reverse_concat, reverse_concat] at matched
        exact matched.2
      | _ => exact kept fun _ same => by cases same
    | pendingBegin begins =>
      obtain ⟨rest, poppedBegin, shortest⟩ := shorter.popLast rfl
      simp only [Cell.token, Token.width, sub_zero] at shortest
      have grouped : Draft.endGroup (front ++ [.pendingBegin begins] ++ [.pendingBreak token]) =
          front := by
        simp [Draft.endGroup]
      simp only [taken, bind_eq_bind, bind_some]
      rw [poppedBegin, grouped]
      exact ⟨_, rfl, rfl, shortest⟩
    | _ => exact kept fun _ same => by cases same
  | _ => exact closed rfl (by simp [Draft.endGroup])

theorem Represents.scan (tidy : Tidy cells) (token : Token) :
    Refines (printer.scan token) (Draft.scan { page := printer.page, cells } token) := by
  have emptyStack := represents.stack_isEmpty tidy
  cases token with
  | string text =>
    rw [Printer.scan, Printer.scanString, Draft.scan]
    by_cases empty : cells = []
    · subst empty
      rw [if_pos (emptyStack.mpr rfl)]
      cases printer.page.printString text with
      | none => exact .none
      | some page => exact .some ⟨rfl, { represents with }⟩
    rw [if_neg (mt emptyStack.mp empty), if_neg empty]
    have pushed : Represents
        { printer with
          buf := (printer.buf.push
            { token := .string text, size := text.utf8ByteSize }).2
          rightTotal := printer.rightTotal + text.utf8ByteSize }
        (cells ++ [.string text]) := by
      constructor
      · simp only [RingBuffer.push, represents.data, entries_append]
        rfl
      · simp only [RingBuffer.push, represents.stack, pendingIndices_append]
        exact (append_nil _).symm
      · rw [widths_append, widths_cons, widths_nil]
        simp only [represents.total, Cell.string, Cell.token, Token.width]
        omega
      · exact forall_mem_append.mpr ⟨represents.sized, forall_mem_singleton.mpr rfl⟩
      · exact fun _ => represents.positive empty
    have pending : ∃ cell ∈ cells ++ [.string text], cell.isKnown = false := by
      rcases tidy.ready with none | ⟨⟨cell, member, unknown⟩, _⟩
      · exact absurd none empty
      · exact ⟨cell, mem_append_left _ member, unknown⟩
    exact pushed.checkStreamLoop pending (Nat.le_of_eq pushed.len.symm)
  | breakToken token =>
    rw [Printer.scan, Printer.scanBreak]
    by_cases empty : cells = []
    · subst empty
      rw [if_pos (emptyStack.mpr rfl)]
      refine .some ⟨rfl, ?_⟩
      exact represents.reset.pushUnknown (.pendingBreak token) rfl (le_refl 1)
    obtain ⟨settled, checked, represented, samePage⟩ := represents.checkStack tidy
    rw [if_neg (mt emptyStack.mp empty), checked]
    refine .some ⟨samePage, ?_⟩
    apply represented.pushUnknown (.pendingBreak token) rfl
    exact represented.positive (settle_ne_nil empty)
  | beginToken token =>
    rw [Printer.scan, Printer.scanBegin]
    by_cases empty : cells = []
    · subst empty
      rw [if_pos (emptyStack.mpr rfl)]
      have pushed := represents.reset.pushUnknown (.pendingBegin token) rfl (le_refl 1)
      exact .some ⟨rfl, pushed⟩
    rw [if_neg (mt emptyStack.mp empty)]
    have pushed := represents.pushUnknown (.pendingBegin token) rfl (represents.positive empty)
    simp only [Cell.token, Token.width, add_zero] at pushed
    exact .some ⟨rfl, pushed⟩
  | endToken =>
    rw [Printer.scan, Draft.scan]
    by_cases empty : cells = []
    · subst empty
      rw [Printer.scanEnd, if_pos (emptyStack.mpr rfl)]
      cases printer.page.printEnd with
      | none => exact .none
      | some page => exact .some ⟨rfl, { represents with }⟩
    obtain ⟨after, scanned, samePage, represented⟩ := represents.scanEnd tidy empty
    rw [scanned, if_neg empty]
    exact .some ⟨samePage, represented⟩

theorem Represents.scanEof (tidy : Tidy cells) :
    Refines printer.scanEof (flush printer.page (settle cells)) := by
  have emptyStack := represents.stack_isEmpty tidy
  unfold Printer.scanEof
  by_cases empty : cells = []
  · subst empty
    rw [if_pos (emptyStack.mpr rfl)]
    exact .some ⟨rfl, represents⟩
  obtain ⟨settled, checked, represented, samePage⟩ := represents.checkStack tidy
  rw [if_neg (mt emptyStack.mp empty), checked, ← samePage]
  exact represented.advanceLeft (settle_ne_nil empty)

end

theorem Represents.exchange {front rest : List Cell} {other : Cell}
    (represents : Represents printer (front ++ cell :: rest))
    (known : other.isKnown = cell.isKnown)
    (width : other.token.width = cell.token.width) (sized : other.Sized) :
    Represents
      { printer with
        buf := { printer.buf with data := entries printer.leftTotal (front ++ other :: rest) } }
      (front ++ other :: rest) where
  data := rfl
  stack := by
    have stack := represents.stack
    rw [pendingIndices_append, pendingIndices] at stack ⊢
    rw [known]
    exact stack
  total := by
    have total := represents.total
    rw [widths_append, widths_cons] at total ⊢
    rw [width]
    exact total
  sized := by
    have all := represents.sized
    rw [forall_mem_append, forall_mem_cons] at all ⊢
    exact ⟨all.1, sized, all.2.2⟩
  positive := by
    intro _
    apply represents.positive
    exact append_ne_nil_of_right_ne_nil _ (cons_ne_nil _ _)

theorem represents_new {margin : ℕ} {useTabWithSize : Option ℕ} :
    Represents (Printer.new margin useTabWithSize) [] where
  data := rfl
  stack := rfl
  total := rfl
  sized := by nofun
  positive := fun nonempty => absurd rfl nonempty

end SwissledgerFoundry.Fmt
