import Mathlib.Data.List.Induction
import SwissledgerFoundry.Fmt.Nesting

/-!
# Buffers that the printer builds

An invariant of the abstract printer's buffer, required also of the cells in
front of every group that may still be taken back.
-/

namespace SwissledgerFoundry.Fmt

open List

/-- The buffer is empty, or some size is pending and a last break is
pending. -/
def Ready (cells : List Cell) : Prop :=
  cells = [] ∨ (∃ cell ∈ cells, cell.isKnown = false) ∧
      ∀ token size, cells.getLast? ≠ some (.known (.breakToken token) size)

variable {cell : Cell}

theorem Ready.concat_pending (front : List Cell)
    (pending : cell.isKnown = false) : Ready (front ++ [cell]) := by
  refine .inr ⟨⟨cell, mem_append_right _ (mem_singleton_self _), pending⟩, ?_⟩
  intro token size last
  rw [getLast?_concat, Option.some.injEq] at last
  rw [last] at pending
  cases pending

variable {rest : List Cell}

theorem Ready.of_append {front : List Cell} (ready : Ready (front ++ cell :: rest))
    (pending : cell.isKnown = false) :
    Ready (cell :: rest) := by
  refine .inr ⟨⟨cell, mem_cons_self, pending⟩, ?_⟩
  intro token size last
  rcases ready with empty | ready
  · exact absurd empty (by simp)
  · apply ready.2 token size
    simp [getLast?_append, last]

/-- The buffer before a group that may still be taken back was ready. -/
def InnerReady (cells : List Cell) : Prop :=
  ∀ front token rest, cells = front ++ .pendingBegin token :: rest → Ready front

variable {cells : List Cell}

namespace InnerReady

theorem of_append (inner : InnerReady (cells ++ rest)) : InnerReady cells := by
  intro front token post split
  apply inner front token (post ++ rest)
  rw [split, append_assoc, cons_append]

theorem concat (inner : InnerReady cells)
    (before : ∀ token, cell = .pendingBegin token → Ready cells) :
    InnerReady (cells ++ [cell]) := by
  intro front token rest split
  rcases eq_nil_or_concat' rest with rfl | ⟨rest, last, rfl⟩
  · obtain ⟨rfl, same⟩ := append_inj' split rfl
    exact before token (singleton_inj.mp same)
  rw [← cons_append, ← append_assoc] at split
  obtain ⟨shorter, _⟩ := append_inj' split rfl
  exact inner front token rest shorter

theorem append {done : List Cell} (inner : InnerReady cells)
    (other : ∀ cell ∈ done, ∀ token, cell ≠ .pendingBegin token) :
    InnerReady (cells ++ done) := by
  induction done using reverseRecOn with
  | nil =>
    rw [append_nil]
    exact inner
  | append_singleton done cell ih =>
    rw [← append_assoc]
    apply concat
    · apply ih
      intro earlier member
      exact other earlier (mem_append_left _ member)
    · intro token same
      exact absurd same (other cell (mem_append_right _ (mem_singleton_self _)) token)

end InnerReady

structure Tidy (cells : List Cell) : Prop where
  matched : Matched 0 0 cells.reverse
  inner : InnerReady cells
  ready : Ready cells

namespace Tidy

theorem nil : Tidy [] where
  matched := trivial
  inner := by
    intro front token rest split
    cases front <;> cases split
  ready := .inl rfl

section

variable (tidy : Tidy cells)

include tidy

theorem push_string (nonempty : cells ≠ []) (text : String) :
    Tidy (cells ++ [.string text]) where
  matched := by
    rw [reverse_append]
    exact tidy.matched
  inner := by
    apply tidy.inner.concat
    nofun
  ready := by
    rcases tidy.ready with empty | ⟨⟨cell, member, pending⟩, _⟩
    · exact absurd empty nonempty
    refine .inr ⟨⟨cell, mem_append_left _ member, pending⟩, ?_⟩
    intro token size last
    rw [getLast?_concat] at last
    cases last

theorem push_begin {token : BeginToken} : Tidy (cells ++ [.pendingBegin token]) where
  matched := by
    rw [reverse_append]
    exact ⟨rfl, tidy.matched⟩
  inner := tidy.inner.concat fun _ _ => tidy.ready
  ready := .concat_pending cells rfl

theorem push_break (token : BreakToken) :
    Tidy (settle cells ++ [.pendingBreak token]) where
  matched := by
    rw [reverse_append, settle, reverse_reverse]
    exact ⟨rfl, tidy.matched.settleBack 0⟩
  inner := by
    obtain ⟨kept, rest, done, split, settled, known⟩ := settle_split cells
    have kept_inner : InnerReady kept := by
      apply InnerReady.of_append
      rw [← split]
      exact tidy.inner
    rw [settled]
    apply InnerReady.concat
    · apply kept_inner.append
      intro cell member begins same
      have impossible := known cell member
      rw [same] at impossible
      cases impossible
    · intro begins same
      cases same
  ready := .concat_pending (settle cells) rfl

theorem push_end : Tidy (cells ++ [.pendingEnd]) where
  matched := by
    rw [reverse_append]
    exact ⟨rfl, tidy.matched.more (Nat.le_succ _)⟩
  inner := by
    apply tidy.inner.concat
    nofun
  ready := .concat_pending cells rfl

end

theorem of_append_pending {front : List Cell} (tidy : Tidy (front ++ cell :: rest))
    (pending : cell.isKnown = false) :
    Tidy (cell :: rest) where
  matched := by
    have matched := tidy.matched
    rw [reverse_append] at matched
    rw [← append_nil (cell :: rest).reverse]
    apply matched.exchange _ le_rfl
    intros
    trivial
  inner := by
    intro before token post split
    cases before with
    | nil => exact .inl rfl
    | cons first before =>
      cases split
      exact (tidy.inner (front ++ cell :: before) token post
        (append_assoc front (cell :: before) _).symm).of_append pending
  ready := tidy.ready.of_append pending

theorem endGroup (tidy : Tidy cells) : Tidy (Draft.endGroup cells) := by
  have matched := tidy.matched
  rcases Draft.endGroup_cases cells with grouped |
    ⟨front, token, rfl, grouped⟩ | ⟨front, begins, token, rfl, grouped⟩
  · rw [grouped]
    exact tidy.push_end
  · rw [grouped]
    rw [reverse_append] at matched
    constructor
    · rw [reverse_append]
      exact ⟨rfl, matched.2.more (Nat.le_succ _)⟩
    · apply tidy.inner.of_append.concat
      nofun
    · exact .concat_pending _ rfl
  rw [grouped]
  rw [reverse_append] at matched
  exact ⟨matched.2.2, tidy.inner.of_append, tidy.inner front begins [.pendingBreak token] rfl⟩

end Tidy

variable {after : Draft}

variable {page : Page}

/-- Printing stops at the end or at a cell of unknown size. -/
theorem stream_flushing_split (streamed : stream true page cells = some after) :
    ∃ printed, cells = printed ++ after.cells ∧
      (after.cells = [] ∨ ∃ cell rest, after.cells = cell :: rest ∧ cell.isKnown = false) := by
  induction cells generalizing page with
  | nil =>
    cases streamed
    exact ⟨[], rfl, .inl rfl⟩
  | cons cell cells ih =>
    unfold stream at streamed
    split at streamed
    next =>
      obtain ⟨next, _, streamed⟩ := Option.bind_eq_some_iff.mp streamed
      obtain ⟨printed, split, stop⟩ := ih streamed
      refine ⟨cell :: printed, ?_, stop⟩
      rw [split, cons_append]
    rename_i condition
    cases streamed
    refine ⟨[], rfl, .inr ⟨cell, cells, rfl, ?_⟩⟩
    rw [not_or] at condition
    exact Bool.eq_false_iff.mpr condition.1

theorem stream_split {flushing : Bool} (streamed : stream flushing page cells = some after) :
    ∃ printed, cells = printed ++ after.cells := by
  apply stream_induction (motive := fun _ rest => ∃ printed,
    cells = printed ++ rest) _ ⟨[], rfl⟩ streamed
  rintro page cell rest next ⟨printed, split⟩ _
  exact ⟨printed ++ [cell], by rw [split, append_assoc]; rfl⟩

theorem Tidy.stream (tidy : Tidy cells) (streamed : stream false page cells = some after) :
    Tidy after.cells := by
  cases cells with
  | nil =>
    cases streamed
    exact tidy
  | cons cell cells =>
    unfold Fmt.stream at streamed
    split at streamed
    next =>
      obtain ⟨next, _, streamed⟩ := Option.bind_eq_some_iff.mp streamed
      obtain ⟨printed, split, empty | ⟨first, rest, same, pending⟩⟩ :=
        stream_flushing_split streamed
      · rw [empty]
        exact Tidy.nil
      rw [split, same, ← cons_append] at tidy
      rw [same]
      exact tidy.of_append_pending pending
    next =>
      cases streamed
      exact tidy

theorem Tidy.scan {token : Token} {draft : Draft} (tidy : Tidy draft.cells)
    (scanned : draft.scan token = some after) :
    Tidy after.cells := by
  cases Draft.scans scanned with
  | prints => exact tidy
  | streams text nonempty streamed => exact (tidy.push_string nonempty text).stream streamed
  | breaks token => exact tidy.push_break token
  | begins token => exact tidy.push_begin
  | ends => exact tidy.endGroup

end SwissledgerFoundry.Fmt
