import SwissledgerFoundry.Fmt.Printing
import SwissledgerFoundry.Fmt.Refinement

/-!
# Hard breaks in the abstract printer

A hard break is wider than any line, so a group that holds one is printed
broken.  The invariant follows the groups around each buffered token: those
already printed, and those still buffered, which will be broken if their size is
infinite.
-/

namespace SwissledgerFoundry.Fmt

open List

/-- Whether the groups around a place break, innermost first, given those
around the place where the cells start. -/
def groupsAfter : List Bool → List Cell → List Bool
  | groups, [] => groups
  | groups, cell :: cells =>
    match cell.token with
    | .beginToken _ => groupsAfter (decide (sizeInfinity ≤ cell.printSize) :: groups) cells
    | .endToken => groupsAfter groups.tail cells
    | _ => groupsAfter groups cells

/-- Every hard break stands in a group that breaks, and is too wide for a
line itself.  Outside all groups lines always break. -/
def HardBroken : List Bool → List Cell → Prop
  | _, [] => True
  | groups, cell :: cells =>
    match cell.token with
    | .beginToken _ => HardBroken (decide (sizeInfinity ≤ cell.printSize) :: groups) cells
    | .endToken => HardBroken groups.tail cells
    | .breakToken token =>
      ((Token.breakToken token).isHardbreak = true →
        groups.head?.getD true = true ∧ sizeInfinity ≤ cell.printSize) ∧
      HardBroken groups cells
    | .string _ => HardBroken groups cells

theorem groupsAfter_append (groups : List Bool) (front rest : List Cell) :
    groupsAfter groups (front ++ rest) = groupsAfter (groupsAfter groups front) rest := by
  induction front generalizing groups with
  | nil => rfl
  | cons cell front ih =>
    rw [cons_append, groupsAfter, groupsAfter]
    cases cell.token <;> exact ih _

theorem hardBroken_append (groups : List Bool) (front rest : List Cell) :
    HardBroken groups (front ++ rest) ↔
      HardBroken groups front ∧ HardBroken (groupsAfter groups front) rest := by
  induction front generalizing groups with
  | nil => exact ⟨fun rest => ⟨trivial, rest⟩, fun both => both.2⟩
  | cons cell front ih =>
    rw [cons_append, HardBroken, HardBroken, groupsAfter]
    cases cell.token with
    | string text => exact ih _
    | breakToken token =>
      simp only
      rw [ih, and_assoc]
    | beginToken token => exact ih _
    | endToken => exact ih _

/-- `wider` breaks wherever `groups` does. -/
def Wider (groups wider : List Bool) : Prop :=
  List.Forall₂ (fun breaks wider => breaks = true → wider = true) groups wider

theorem Wider.refl (groups : List Bool) : Wider groups groups := forall₂_refl groups

variable {wider : List Bool}

theorem Wider.tail {groups : List Bool} (more : Wider groups wider) :
    Wider groups.tail wider.tail := by
  cases more with
  | nil => exact .nil
  | cons _ more => exact more

theorem Wider.groupsAfter {groups : List Bool} (more : Wider groups wider) (cells : List Cell) :
    Wider (groupsAfter groups cells) (groupsAfter wider cells) := by
  induction cells generalizing groups wider with
  | nil => exact more
  | cons cell cells ih =>
    rw [Fmt.groupsAfter, Fmt.groupsAfter]
    cases cell.token with
    | string text => exact ih more
    | breakToken token => exact ih more
    | beginToken token => exact ih (.cons id more)
    | endToken => exact ih more.tail

variable {cells : List Cell}

theorem Wider.hardBroken {groups : List Bool} (more : Wider groups wider)
    (broken : HardBroken groups cells) : HardBroken wider cells := by
  induction cells generalizing groups wider with
  | nil => trivial
  | cons cell cells ih =>
    rw [HardBroken] at broken ⊢
    generalize cell.token = token at broken ⊢
    cases token with
    | string text => exact ih more broken
    | breakToken token =>
      refine ⟨?_, ih more broken.2⟩
      intro hard
      obtain ⟨inner, wide⟩ := broken.1 hard
      refine ⟨?_, wide⟩
      cases more with
      | nil => exact inner
      | cons head _ => exact head inner
    | beginToken token => exact ih (.cons id more) broken
    | endToken => exact ih more.tail broken

theorem Wider.all {groups : List Bool} (more : Wider groups wider)
    (breaks : ∀ group ∈ groups, group = true) :
    ∀ group ∈ wider, group = true := by
  induction more with
  | nil => nofun
  | cons head _ ih =>
    intro group member
    cases member with
    | head => exact head (breaks _ mem_cons_self)
    | tail _ member =>
      apply ih _ group member
      intro other member
      exact breaks other (mem_cons_of_mem _ member)

theorem hardBroken_of_narrow (narrow : widths cells < sizeInfinity) (groups : List Bool) :
    HardBroken groups cells := by
  induction cells generalizing groups with
  | nil => trivial
  | cons cell cells ih =>
    rw [widths_cons] at narrow
    have width := cell.token.width_nonneg
    have rest := widths_nonneg cells
    rw [HardBroken]
    cases same : cell.token with
    | string text => exact ih (by omega) _
    | beginToken token => exact ih (by omega) _
    | endToken => exact ih (by omega) _
    | breakToken token =>
      refine ⟨?_, ih (by omega) _⟩
      intro hard
      rw [Token.isHardbreak, Bool.and_eq_true, decide_eq_true_eq] at hard
      rw [same, Token.width] at narrow
      omega

/-- What a group that ends inside the cells does is forgotten after them. -/
theorem groupsAfter_forget (inner groups : List Bool) (breaks fits : Bool)
    (leads : depthAfter (inner.length + 1) cells = 0) :
    groupsAfter (inner ++ breaks :: groups) cells =
      groupsAfter (inner ++ fits :: groups) cells := by
  induction cells generalizing inner with
  | nil => cases leads
  | cons cell cells ih =>
    rw [depthAfter_cons] at leads
    rw [groupsAfter, groupsAfter]
    cases same : cell.token with
    | string text =>
      rw [same] at leads
      exact ih inner leads
    | breakToken token =>
      rw [same] at leads
      exact ih inner leads
    | beginToken token =>
      rw [same] at leads
      exact ih (_ :: inner) leads
    | endToken =>
      rw [same] at leads
      cases inner with
      | nil => rfl
      | cons head inner => exact ih inner leads

/-- Each hard break that was printed started a new line. -/
def Page.HardBreaksBreak (page : Page) : Prop :=
  ∀ entry ∈ page.printedBreaks, (Token.breakToken entry.1).isHardbreak = true → entry.2 = true

def Page.groups (page : Page) : List Bool := page.printStack.map PrintFrame.isBroken

/-- A group that may still get more tokens breaks. -/
structure BreaksKept (page : Page) (cells : List Cell) : Prop where
  bounded : page.Bounded
  broke : page.HardBreaksBreak
  broken : HardBroken page.groups cells
  unfinished : ∀ group ∈ groupsAfter page.groups cells, group = true

theorem head_getD_of_all {groups : List Bool} (breaks : ∀ group ∈ groups, group = true) :
    groups.head?.getD true = true := by
  cases groups with
  | nil => rfl
  | cons group groups => exact breaks group mem_cons_self

variable {cell : Cell}

theorem hardBroken_singleton {groups : List Bool}
    (breaks : ∀ group ∈ groups, group = true) (pending : cell.isKnown = false) :
    HardBroken groups [cell] := by
  cases cell with
  | known token size => cases pending
  | pendingBreak token => exact ⟨fun _ => ⟨head_getD_of_all breaks, Int.le_refl _⟩, trivial⟩
  | _ => trivial

theorem groupsAfter_singleton {groups : List Bool}
    (breaks : ∀ group ∈ groups, group = true) (pending : cell.isKnown = false) :
    ∀ group ∈ groupsAfter groups [cell], group = true := by
  intro group member
  cases cell with
  | known token size => cases pending
  | pendingBreak token => exact breaks group member
  | pendingEnd => exact breaks group (mem_of_mem_tail member)
  | pendingBegin token =>
    rcases mem_cons.mp member with same | member
    · rw [same]
      exact decide_eq_true (Int.le_refl _)
    · exact breaks group member

namespace BreaksKept

variable {page : Page} {cells : List Cell}

theorem exchange {front rest other : List Cell} (kept : BreaksKept page (front ++ rest))
    (exchanged : HardBroken (groupsAfter page.groups front) rest →
      (∀ group ∈ groupsAfter (groupsAfter page.groups front) rest, group = true) →
      HardBroken (groupsAfter page.groups front) other ∧
      ∀ group ∈ groupsAfter (groupsAfter page.groups front) other, group = true) :
    BreaksKept page (front ++ other) := by
  obtain ⟨bounded, broke, broken, unfinished⟩ := kept
  rw [hardBroken_append] at broken
  rw [groupsAfter_append] at unfinished
  obtain ⟨after, finished⟩ := exchanged broken.2 unfinished
  rw [← groupsAfter_append] at finished
  exact ⟨bounded, broke, (hardBroken_append _ _ _).mpr ⟨broken.1, after⟩, finished⟩

section

variable (kept : BreaksKept page cells)

include kept

theorem append {rest : List Cell} (added : (∀ group ∈ groupsAfter page.groups cells, group = true) →
      HardBroken (groupsAfter page.groups cells) rest ∧
      ∀ group ∈ groupsAfter (groupsAfter page.groups cells) rest, group = true) :
    BreaksKept page (cells ++ rest) := by
  rw [← append_nil cells] at kept
  exact kept.exchange fun _ unfinished => added unfinished

theorem push (pending : cell.isKnown = false) : BreaksKept page (cells ++ [cell]) :=
  kept.append fun unfinished => ⟨hardBroken_singleton unfinished pending,
    groupsAfter_singleton unfinished pending⟩

theorem push_string (text : String) : BreaksKept page (cells ++ [.string text]) :=
  kept.append fun unfinished => ⟨trivial, unfinished⟩

/-- Finding a size keeps hard breaks in groups that break: the size of a group
counts the hard breaks in it. -/
theorem settles {after : List Cell} (step : Settles cells after) : BreaksKept page after := by
  cases step with
  | ends front post => exact kept.exchange fun broken unfinished => ⟨broken, unfinished⟩
  | breaks front token post leads =>
    apply kept.exchange
    intro broken unfinished
    refine ⟨⟨?_, broken.2⟩, unfinished⟩
    intro hard
    refine ⟨(broken.1 hard).1, ?_⟩
    rw [Token.isHardbreak, Bool.and_eq_true, decide_eq_true_eq] at hard
    have rest := widths_nonneg post
    simp only [Cell.printSize, hard.1]
    omega
  | begins front token post leads =>
    apply kept.exchange
    intro broken unfinished
    constructor
    · by_cases wide : sizeInfinity ≤ widths post
      · have more : Wider (decide (sizeInfinity ≤ Cell.printSize (.pendingBegin token)) ::
              groupsAfter page.groups front)
            (decide (sizeInfinity ≤ widths post) :: groupsAfter page.groups front) :=
          .cons (fun _ => decide_eq_true wide) (Wider.refl _)
        exact more.hardBroken broken
      · exact hardBroken_of_narrow (Int.not_le.mp wide) _
    have forgotten := groupsAfter_forget [] (groupsAfter page.groups front)
      (decide (sizeInfinity ≤ widths post))
      (decide (sizeInfinity ≤ Cell.printSize (.pendingBegin token)))
      leads
    intro group member
    apply unfinished
    rw [nil_append, nil_append] at forgotten
    simp only [groupsAfter, Cell.token] at member ⊢
    rw [← forgotten]
    exact member

theorem settle (tidy : Tidy cells) : BreaksKept page (settle cells) :=
  settle_induction tidy.matched (fun _ _ step kept => BreaksKept.settles kept step) kept

end

theorem pop_break {token : BreakToken} (kept : BreaksKept page (cells ++ [.pendingBreak token])) :
    BreaksKept page cells := by
  rw [← append_nil cells]
  exact kept.exchange fun _ unfinished => ⟨trivial, unfinished⟩

theorem pop_begin {token : BeginToken} (kept : BreaksKept page (cells ++ [.pendingBegin token])) :
    BreaksKept page cells := by
  rw [← append_nil cells]
  exact kept.exchange fun _ unfinished =>
    ⟨trivial, fun group member => unfinished group (mem_cons_of_mem _ member)⟩

theorem print {after : Page} (kept : BreaksKept page (cell :: cells))
    (printed : page.printToken cell.token cell.printSize = some after) :
    BreaksKept after cells := by
  have bounded := kept.bounded.printToken printed
  have broken := kept.broken
  have unfinished := kept.unfinished
  rw [HardBroken] at broken
  rw [groupsAfter] at unfinished
  generalize cell.token = token at printed broken unfinished
  cases token with
  | string text =>
    obtain ⟨out, rfl⟩ := Page.printString_eq printed
    exact ⟨bounded, kept.broke, broken, unfinished⟩
  | breakToken token =>
    obtain ⟨out, pendingIndentation, space, rfl, _⟩ := Page.printBreak_eq printed
    refine ⟨bounded, ?_, broken.2, unfinished⟩
    intro entry member hard
    rcases mem_append.mp member with member | member
    · exact kept.broke entry member hard
    rw [mem_singleton.mp member] at hard ⊢
    obtain ⟨inner, wide⟩ := broken.1 hard
    have exceeds := kept.bounded.space_lt
    rw [Token.isHardbreak, Bool.and_eq_true, Bool.not_eq_true'] at hard
    have stays : page.breakFits token cell.printSize = false := by
      unfold Page.breakFits Page.getTop
      rw [hard.2]
      unfold Page.groups at inner
      generalize page.printStack = frames at inner ⊢
      cases frames with
      | nil =>
        apply decide_eq_false
        omega
      | cons frame frames =>
        cases frame with
        | fits breaks => cases inner
        | broken indent breaks =>
          cases breaks with
          | consistent => rfl
          | inconsistent =>
            apply decide_eq_false
            omega
    simp [stays]
  | beginToken token =>
    obtain ⟨frame, indent, rfl, breaks⟩ := Page.printBegin_eq printed
    have more : Wider (decide (sizeInfinity ≤ cell.printSize) :: page.groups)
        (frame.isBroken :: page.groups) := by
      refine .cons ?_ (Wider.refl _)
      intro wide
      rw [breaks]
      apply decide_eq_true
      exact Int.lt_of_lt_of_le kept.bounded.space_lt (of_decide_eq_true wide)
    exact ⟨bounded, kept.broke, more.hardBroken broken, (more.groupsAfter cells).all unfinished⟩
  | endToken =>
    obtain ⟨frame, rest, indent, stack, rfl⟩ := Page.printEnd_eq printed
    have groups : page.groups.tail = rest.map PrintFrame.isBroken := by
      unfold Page.groups
      simp [stack]
    simp only [groups] at broken unfinished
    exact ⟨bounded, kept.broke, broken, unfinished⟩

variable {after : Draft}

section

variable (kept : BreaksKept page cells)

include kept

theorem flush (flushed : flush page cells = some after) : BreaksKept after.page after.cells := by
  induction cells generalizing page with
  | nil =>
    injection flushed with same
    subst same
    exact kept
  | cons cell cells ih =>
    cases cell with
    | known token size =>
      obtain ⟨next, printed, flushed⟩ := Option.bind_eq_some_iff.mp flushed
      exact ih (kept.print printed) flushed
    | _ =>
      injection flushed with same
      subst same
      exact kept

theorem stream {flushing : Bool} (streamed : stream flushing page cells = some after) :
    BreaksKept after.page after.cells := by
  exact stream_induction (fun _ _ _ _ kept printed => print kept printed) kept streamed

theorem endGroup : BreaksKept page (Draft.endGroup cells) := by
  rcases Draft.endGroup_cases cells with grouped | ⟨front, token, rfl, grouped⟩ |
    ⟨front, begins, token, rfl, grouped⟩
  · rw [grouped]
    exact kept.push rfl
  · rw [grouped]
    exact kept.pop_break.push rfl
  rw [grouped]
  rw [append_cons] at kept
  exact kept.pop_break.pop_begin

end

theorem scan {draft : Draft} {token : Token}
    (kept : BreaksKept draft.page draft.cells) (tidy : Tidy draft.cells)
    (scanned : draft.scan token = some after) :
    BreaksKept after.page after.cells := by
  cases Draft.scans scanned with
  | prints empty plain printed =>
    rw [empty] at kept
    rw [empty]
    rcases plain with ⟨text, rfl⟩ | rfl
    · exact (kept.push_string text).print printed
    · have pushed : BreaksKept draft.page ([] ++ [Cell.pendingEnd]) := kept.push rfl
      exact pushed.print printed
  | streams text _ streamed => exact (kept.push_string text).stream streamed
  | breaks token => exact (kept.settle tidy).push rfl
  | begins token => exact kept.push rfl
  | ends => exact kept.endGroup

end BreaksKept

end SwissledgerFoundry.Fmt
