import SwissledgerFoundry.Collections.Transition
import SwissledgerFoundry.Fmt.HardBreaks

/-!
# Calls that replace a buffered token

`hardbreak_if_not_bol` puts a hard break in the place of a buffered break but
leaves the running totals alone, so group sizes need not count the hard break.
All other replacements keep the width.
-/

namespace SwissledgerFoundry.Fmt

open List Transition

variable {token : BreakToken}

theorem Tidy.last_break {cells : List Cell} (tidy : Tidy cells)
    (last : cells.getLast?.map Cell.token = some (.breakToken token)) :
    ∃ front, cells = front ++ [.pendingBreak token] := by
  rcases eq_nil_or_concat' cells with rfl | ⟨front, cell, rfl⟩
  · cases last
  rw [getLast?_concat, Option.map_some, Option.some.injEq] at last
  cases cell with
  | known other size =>
    rcases tidy.ready with empty | ready
    · exact absurd empty (concat_ne_nil _ _)
    · subst last
      exact absurd getLast?_concat (ready.2 token size)
  | pendingBreak other =>
    cases last
    exact ⟨front, rfl⟩
  | _ => cases last

variable {front : List Cell}

theorem Tidy.replace_last (tidy : Tidy (front ++ [.pendingBreak token])) (other : BreakToken) :
    Tidy (front ++ [.pendingBreak other]) where
  matched := by
    have matched := tidy.matched
    rw [reverse_concat] at matched ⊢
    exact matched
  inner := by
    apply tidy.inner.of_append.concat
    nofun
  ready := .concat_pending front rfl

variable {printer : Printer} {other : BreakToken}

theorem Represents.replace_last (represents : Represents printer (front ++ [.pendingBreak token]))
    (same : token.blankSpace = other.blankSpace) :
    ∃ after, printer.replaceLastTokenStillBuffered (.breakToken other) = some after ∧
      after.page = printer.page ∧
      Represents after (front ++ [.pendingBreak other]) := by
  have listed : printer.buf = ⟨entries printer.leftTotal front ++
      [Cell.entry (printer.leftTotal + widths front) (.pendingBreak token)],
      printer.buf.offset⟩ := by
    have data := represents.data
    rw [entries_append, entries, entries] at data
    rw [← data]
  have modified : (printer.buf.modifyLast fun entry =>
      { entry with token := .breakToken other }) = some
      ⟨entries printer.leftTotal (front ++ [.pendingBreak other]), printer.buf.offset⟩ := by
    rw [listed, entries_append]
    exact RingBuffer.modifyLast_concat _ _ _ _
  unfold Printer.replaceLastTokenStillBuffered
  rw [modified]
  refine ⟨_, rfl, rfl, represents.exchange rfl ?_ trivial⟩
  rw [Cell.token, Cell.token, Token.width, Token.width, same]

/-- The invariant of runs in which replacements keep the width. -/
def HardBreakInvariant (printer : Printer) : Prop :=
  ∃ cells, Represents printer cells ∧ Tidy cells ∧ BreaksKept printer.page cells

variable {after : Printer}

theorem HardBreakInvariant.replace (invariant : HardBreakInvariant printer)
    (last : printer.lastTokenStillBuffered = some (.breakToken token))
    (same : token.blankSpace = other.blankSpace)
    (replaced : printer.replaceLastTokenStillBuffered (.breakToken other) =
      some after) : HardBreakInvariant after := by
  obtain ⟨cells, represents, tidy, kept⟩ := invariant
  unfold Printer.lastTokenStillBuffered at last
  rw [represents.last] at last
  obtain ⟨front, rfl⟩ := tidy.last_break last
  obtain ⟨result, equal, samePage, represented⟩ := represents.replace_last same
  cases equal.symm.trans replaced
  refine ⟨_, represented, tidy.replace_last other, ?_⟩
  rw [samePage]
  exact kept.pop_break.push rfl

theorem HardBreakInvariant.scan {token : Token} (invariant : HardBreakInvariant printer)
    (scanned : printer.scan token = some after) :
    HardBreakInvariant after := by
  obtain ⟨cells, represents, tidy, kept⟩ := invariant
  have refines := represents.scan tidy token
  rw [scanned] at refines
  obtain ⟨draft, draftScanned, samePage, represented⟩ := refines.exists_of_some
  refine ⟨draft.cells, represented, tidy.scan draftScanned, ?_⟩
  rw [samePage]
  exact kept.scan tidy draftScanned

/-- A hard break with another offset, its size known or not as before. -/
def Cell.retarget (off : ℤ) : Cell → Cell
  | .known _ size => .known (.hardbreakTokOffset off) size
  | _ => .pendingBreak { offset := off, blankSpace := sizeInfinity }

theorem Cell.retarget_token (off : ℤ) (cell : Cell) :
    (cell.retarget off).token = .hardbreakTokOffset off := by
  cases cell <;> rfl

theorem Cell.isHardbreak_cases {cell : Cell} (hard : cell.token.isHardbreak = true) :
    ∃ token : BreakToken, (Token.breakToken token).isHardbreak = true ∧
      ((∃ size, cell = .known (.breakToken token) size) ∨ cell = .pendingBreak token) := by
  cases cell with
  | known token size =>
    cases token with
    | breakToken token => exact ⟨token, hard, .inl ⟨size, rfl⟩⟩
    | _ => cases hard
  | pendingBreak token => exact ⟨token, hard, .inr rfl⟩
  | _ => cases hard

theorem Token.width_of_isHardbreak {token : Token}
    (hard : token.isHardbreak = true) : token.width = sizeInfinity := by
  cases token with
  | breakToken token =>
    rw [Token.isHardbreak, Bool.and_eq_true, decide_eq_true_eq] at hard
    rw [Token.width, hard.1]
  | _ => cases hard

/-- The search either changes nothing or retargets the hard break in front of
the last ends. -/
theorem replaceFirstNonEnd_entries (off position : ℤ) (back : List Cell) :
    Printer.replaceFirstNonEnd (.hardbreakTokOffset off) Token.isHardbreak
        (entries position back.reverse).reverse =
        (entries position back.reverse).reverse ∨
    ∃ ends cell front, back = ends ++ cell :: front ∧
      (∀ closing ∈ ends, closing.token = .endToken) ∧
      cell.token.isHardbreak = true ∧
      Printer.replaceFirstNonEnd (.hardbreakTokOffset off) Token.isHardbreak
          (entries position back.reverse).reverse =
        (entries position (ends ++ cell.retarget off :: front).reverse).reverse := by
  induction back with
  | nil => exact .inl rfl
  | cons cell back ih =>
    have last : ∀ (cell : Cell) (back : List Cell),
        (entries position (cell :: back).reverse).reverse =
          cell.entry (position + widths back.reverse) ::
            (entries position back.reverse).reverse := by
      intro cell back
      rw [reverse_cons, entries_append, reverse_append]
      rfl
    rw [last, Printer.replaceFirstNonEnd, Cell.entry_token]
    by_cases closes : cell.token = .endToken
    · rw [if_pos closes]
      rcases ih with same | ⟨ends, target, front, split, closing, hard, replaced⟩
      · rw [same]
        exact .inl rfl
      refine .inr ⟨cell :: ends, target, front, ?_, ?_, hard, ?_⟩
      · rw [split, cons_append]
      · exact forall_mem_cons.mpr ⟨closes, closing⟩
      rw [replaced, cons_append, last]
      -- An end is stored without its position.
      have fixed : ∀ first second, cell.entry first = cell.entry second := by
        intro first second
        cases cell with
        | known token size => rfl
        | pendingEnd => rfl
        | _ => cases closes
      rw [fixed]
    rw [if_neg closes]
    by_cases hard : cell.token.isHardbreak = true
    · rw [if_pos hard]
      refine .inr ⟨[], cell, back, rfl, forall_mem_nil _, hard, ?_⟩
      rw [nil_append, last]
      obtain ⟨token, _, ⟨size, rfl⟩ | rfl⟩ := cell.isHardbreak_cases hard
      · rfl
      · rfl
    · rw [if_neg hard]
      exact .inl rfl

section Retarget

variable {cell : Cell} (off : ℤ) (hard : cell.token.isHardbreak = true)

include hard

theorem Cell.isKnown_retarget : (cell.retarget off).isKnown = cell.isKnown := by
  obtain ⟨token, _, ⟨size, rfl⟩ | rfl⟩ := cell.isHardbreak_cases hard
  · rfl
  · rfl

theorem Cell.printSize_retarget : (cell.retarget off).printSize = cell.printSize := by
  obtain ⟨token, _, ⟨size, rfl⟩ | rfl⟩ := cell.isHardbreak_cases hard
  · rfl
  · rfl

variable {ends : List Cell}

theorem Matched.retarget {found pending : ℕ} {back : List Cell}
    (matched : Matched found pending (ends ++ cell :: back)) :
    Matched found pending (ends ++ cell.retarget off :: back) := by
  apply matched.exchange _ le_rfl
  intro found pending here more fewer
  obtain ⟨token, _, ⟨size, rfl⟩ | rfl⟩ := cell.isHardbreak_cases hard
  · exact here.more fewer
  · exact here.more fewer

theorem Tidy.retarget (tidy : Tidy (front ++ cell :: ends))
    (closing : ∀ other ∈ ends, other.token = .endToken) :
    Tidy (front ++ cell.retarget off :: ends) where
  matched := by
    have matched := tidy.matched
    rw [reverse_append, reverse_cons, append_assoc] at matched
    rw [reverse_append, reverse_cons, append_assoc]
    exact matched.retarget off hard
  inner := by
    apply tidy.inner.of_append.append
    intro other member begins same
    subst same
    rcases mem_cons.mp member with same | member
    · have token := cell.retarget_token off
      rw [← same] at token
      cases token
    · cases closing _ member
  ready := by
    have nonempty : front ++ cell :: ends ≠ [] := append_ne_nil_of_right_ne_nil _ (cons_ne_nil _ _)
    obtain ⟨⟨other, member, unknown⟩, last⟩ := tidy.ready.resolve_left nonempty
    refine .inr ⟨?_, ?_⟩
    · rcases mem_append.mp member with member | member
      · exact ⟨other, mem_append_left _ member, unknown⟩
      cases member with
      | head =>
        refine ⟨_, mem_append_right _ mem_cons_self, ?_⟩
        rw [Cell.isKnown_retarget off hard]
        exact unknown
      | tail _ member => exact ⟨other, mem_append_right _ (mem_cons_of_mem _ member), unknown⟩
    intro token size same
    rcases eq_nil_or_concat' ends with rfl | ⟨rest, final, rfl⟩
    · rw [getLast?_concat] at same
      obtain ⟨broken, _, ⟨known, rfl⟩ | rfl⟩ := cell.isHardbreak_cases hard
      · exact last broken known getLast?_concat
      · cases same
    have final_token := closing final (mem_append_right _ (mem_singleton_self _))
    rw [← cons_append, ← append_assoc, getLast?_concat, Option.some.injEq] at same
    rw [same] at final_token
    cases final_token

theorem BreaksKept.retarget {page : Page} (kept : BreaksKept page (front ++ cell :: ends)) :
    BreaksKept page (front ++ cell.retarget off :: ends) := by
  have token := cell.retarget_token off
  have size := cell.printSize_retarget off hard
  obtain ⟨broken, broken_hard, same⟩ := cell.isHardbreak_cases hard
  have cell_token : cell.token = .breakToken broken := by
    rcases same with ⟨size, rfl⟩ | rfl
    · rfl
    · rfl
  have hard_broken := kept.broken
  have unfinished := kept.unfinished
  rw [hardBroken_append, HardBroken, cell_token] at hard_broken
  rw [groupsAfter_append, groupsAfter, cell_token] at unfinished
  refine ⟨kept.bounded, kept.broke, ?_, ?_⟩
  · rw [hardBroken_append, HardBroken, token]
    refine ⟨hard_broken.1, ?_, hard_broken.2.2⟩
    intro _
    rw [size]
    exact hard_broken.2.1 broken_hard
  · rw [groupsAfter_append, groupsAfter, token]
    exact unfinished

theorem Represents.retarget (represents : Represents printer (front ++ cell :: ends)) : Represents
      { printer with
        buf :=
          { printer.buf with
            data := entries printer.leftTotal (front ++ cell.retarget off :: ends) } }
      (front ++ cell.retarget off :: ends) := by
  apply represents.exchange (Cell.isKnown_retarget off hard)
  · rw [cell.retarget_token off, Token.width_of_isHardbreak hard]
    rfl
  have sized := represents.sized cell (mem_append_right _ mem_cons_self)
  obtain ⟨token, _, ⟨size, rfl⟩ | rfl⟩ := cell.isHardbreak_cases hard
  · exact sized
  · trivial

end Retarget

theorem HardBreakInvariant.search (invariant : HardBreakInvariant printer) (off : ℤ) :
    HardBreakInvariant (printer.findAndReplaceLastTokenStillBuffered
        (.hardbreakTokOffset off) Token.isHardbreak) := by
  obtain ⟨cells, represents, tidy, kept⟩ := invariant
  unfold Printer.findAndReplaceLastTokenStillBuffered
  rw [represents.data]
  have replaced := replaceFirstNonEnd_entries off printer.leftTotal cells.reverse
  rw [reverse_reverse] at replaced
  rcases replaced with same | ⟨ends, cell, front, split, closing, hard, replaced⟩
  · rw [same, reverse_reverse, ← represents.data]
    exact ⟨cells, represents, tidy, kept⟩
  rw [reverse_eq_iff, reverse_append, reverse_cons, append_assoc] at split
  have reversed : (ends ++ cell.retarget off :: front).reverse =
      front.reverse ++ cell.retarget off :: ends.reverse := by
    simp [reverse_append, reverse_cons, append_assoc]
  rw [replaced, reverse_reverse, reversed]
  rw [split] at represents tidy kept
  refine ⟨_, represents.retarget off hard, tidy.retarget off hard ?_, kept.retarget off hard⟩
  intro other member
  exact closing other (mem_reverse.mp member)

/-- The call does not replace a buffered break by a wider one. -/
def KeepsWidth : Option Printer → Call → Prop
  | some printer, .hardbreakIfNotBol =>
    printer.isBolOrOnlyInd = true ∨
      match printer.lastTokenStillBuffered with
      | some (.breakToken last) => last.offset = 0 ∨ last.blankSpace = sizeInfinity
      | _ => True
  | _, _ => True

instance decidableKeepsWidth (state : Option Printer) (call : Call) :
    Decidable (KeepsWidth state call) := by
  unfold KeepsWidth
  split
  · apply @instDecidableOr _ _ _ ?_
    split <;> infer_instance
  · infer_instance

theorem HardBreakInvariant.call {call : Call} (invariant : HardBreakInvariant printer)
    (keeps : KeepsWidth (some printer) call)
    (called : printer.call call = some after) :
    HardBreakInvariant after := by
  cases call with
  | scan token => exact invariant.scan called
  | offset offset =>
    rw [Printer.call, Printer.offset] at called
    split at called
    next token last =>
      refine invariant.replace last ?_ called
      rfl
    next =>
      cases called
      exact invariant
    next => cases called
  | hardbreakIfNotBol =>
    rw [Printer.call, Printer.hardbreakIfNotBol] at called
    split at called
    next =>
      cases called
      exact invariant
    rename_i inside
    rcases keeps with atStart | keeps
    · exact absurd atStart inside
    split at called
    next last listed =>
      rw [listed] at keeps
      split at called
      next shifted => exact invariant.replace listed (keeps.resolve_left shifted) called
      next => exact invariant.scan called
    next => exact invariant.scan called
  | spaceIfNotBol =>
    rw [Printer.call, Printer.spaceIfNotBol] at called
    split at called
    next =>
      cases called
      exact invariant
    next => exact invariant.scan called
  | breakOffsetIfNotBol n off search =>
    rw [Printer.call, Printer.breakOffsetIfNotBol] at called
    split at called
    next =>
      cases called
      exact invariant.search off
    next =>
      split at called
      next => exact invariant.scan called
      next =>
        split at called
        next token listed =>
          split at called
          next shifted =>
            rw [Bool.and_eq_true] at shifted
            cases token with
            | breakToken token =>
              apply invariant.replace listed _ called
              have width := Token.width_of_isHardbreak shifted.2
              exact Int.ofNat_inj.mp width
            | _ => cases shifted.2
          next =>
            cases called
            exact invariant
        next =>
          cases called
          exact invariant

/-- Every hard break that was printed started a line, and the totals count
the buffered tokens. -/
structure HardBreaksSound (printer : Printer) : Prop where
  newline : printer.page.HardBreaksBreak
  totals : printer.rightTotal - printer.leftTotal =
    (printer.buf.data.map fun entry => entry.token.width).sum

theorem Represents.totals {cells : List Cell} (represents : Represents printer cells) :
    printer.rightTotal - printer.leftTotal =
      (printer.buf.data.map fun entry => entry.token.width).sum := by
  have tokens := map_token_entries printer.leftTotal cells
  have sums : (printer.buf.data.map fun entry => entry.token.width).sum = widths cells := by
    calc
      (printer.buf.data.map fun entry => entry.token.width).sum =
          (((entries printer.leftTotal cells).map BufEntry.token).map Token.width).sum := by
        rw [represents.data, map_map]
        rfl
      _ = ((cells.map Cell.token).map Token.width).sum := by rw [tokens]
      _ = widths cells := by
        rw [map_map]
        rfl
  rw [represents.total]
  omega

theorem HardBreakInvariant.sound (invariant : HardBreakInvariant printer) :
    HardBreaksSound printer := by
  obtain ⟨cells, represents, _, kept⟩ := invariant
  exact ⟨kept.broke, represents.totals⟩

theorem HardBreakInvariant.eof {finished : Printer} (invariant : HardBreakInvariant printer)
    (eof : printer.scanEof = some finished) : HardBreaksSound finished := by
  obtain ⟨cells, represents, tidy, kept⟩ := invariant
  have refines := represents.scanEof tidy
  rw [eof] at refines
  obtain ⟨draft, flushed, samePage, represented⟩ := refines.exists_of_some
  refine ⟨?_, represented.totals⟩
  rw [samePage]
  exact ((kept.settle tidy).flush flushed).broke

theorem hardBreakInvariant_new {margin : ℕ} {useTabWithSize : Option ℕ} :
    HardBreakInvariant (Printer.new margin useTabWithSize) := by
  refine ⟨[], represents_new, Tidy.nil, ?_⟩
  constructor
  · exact Page.bounded_new margin useTabWithSize
  · exact forall_mem_nil _
  · trivial
  · exact forall_mem_nil _

/-- In a run whose calls keep widths, every state reached and the finished
document print each hard break as a newline. -/
theorem run_hardBreaksSound (margin : ℕ) (useTabWithSize : Option ℕ) (calls : List Call)
    (keeping : Along Printer.step KeepsWidth
      (some (Printer.new margin useTabWithSize)) calls) :
    ∀ reached, reached <+: calls → ∀ printer, run Printer.step
        (some (Printer.new margin useTabWithSize)) reached = some printer →
      HardBreaksSound printer ∧
        ∀ finished, printer.scanEof = some finished → HardBreaksSound finished := by
  intro reached isPrefix printer ran
  have invariant := invariant_along
    (fun state => ∀ printer, state = some printer → HardBreakInvariant printer)
    (fun state call invariant keeps after called => by
      obtain ⟨printer, rfl, called⟩ := Option.bind_eq_some_iff.mp called
      exact (invariant printer rfl).call keeps called)
    (fun printer same => by
      cases same
      exact hardBreakInvariant_new)
    keeping reached isPrefix printer ran
  exact ⟨invariant.sound, fun _ eof => invariant.eof eof⟩

/-- A hard break after a soft one: the last break has no offset. -/
def softThenHard : List Call :=
  [.scan (.cbox 4), .scan (.word "a"), .scan .space, .hardbreakIfNotBol,
    .scan (.word "b"), .scan .endToken]

theorem run_hardBreaksSound_softThenHard : ∃ printer finished,
      run Printer.step (some (Printer.new 80 none)) softThenHard = some printer ∧
      printer.scanEof = some finished ∧ HardBreaksSound finished ∧
      finished.page.out = "a\n\n    b" := by
  refine ⟨_, _, rfl, rfl, ?_, ?_⟩
  · exact (run_hardBreaksSound 80 none softThenHard (by decide +kernel)
      softThenHard (prefix_refl _) _ rfl).2 _ rfl
  · decide +kernel

def hardInPlaceOfSoft : List Call :=
  [.scan (.cbox 0), .scan (.word "a"), .scan (.breakOffset 1 4),
    .hardbreakIfNotBol, .scan (.word "b"), .scan .endToken]

theorem hardbreakIfNotBol_prints_spaces :
    WellNested 0 (hardInPlaceOfSoft.filterMap Call.token) = true ∧ ∃ printer finished,
        run Printer.step (some (Printer.new 80 none)) hardInPlaceOfSoft = some printer ∧
        printer.rightTotal - printer.leftTotal = 3 ∧
        (printer.buf.data.map fun entry => entry.token.width).sum = 65537 ∧
        printer.scanEof = some finished ∧
        finished.page.printedBreaks = [({ offset := 4, blankSpace := sizeInfinity }, false)] := by
  refine ⟨by decide, _, _, rfl, ?_, ?_, rfl, ?_⟩ <;> decide

end SwissledgerFoundry.Fmt
