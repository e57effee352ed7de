import SwissledgerFoundry.Fmt.Lookahead

/-!
# How far a pending size reaches

The size of a pending cell extends over the whole rest of the buffer.  A new
break ends exactly the widths that `settle` has filled in.
-/

namespace SwissledgerFoundry.Fmt

open List

/-- No break of the cells is outside all of the `depth` groups open at their
start. -/
def Clear : ℕ → List Cell → Prop
  | _, [] => True
  | depth, cell :: cells =>
    (∀ token, cell.token = .breakToken token → 1 ≤ depth) ∧ Clear (cell.token.nest depth) cells

variable {front rest : List Cell}

theorem clear_append {depth : ℕ} :
    Clear depth (front ++ rest) ↔ Clear depth front ∧ Clear (depthAfter depth front) rest := by
  induction front generalizing depth with
  | nil => exact ⟨fun clear => ⟨trivial, clear⟩, fun both => both.2⟩
  | cons cell front ih => rw [cons_append, Clear, Clear, depthAfter_cons, ih, and_assoc]

variable {cells other : List Cell}

section

variable (same : cells.map Cell.token = other.map Cell.token)

include same

theorem clear_congr {depth : ℕ} (clear : Clear depth cells) : Clear depth other := by
  induction cells generalizing other depth with
  | nil =>
    rw [map_eq_nil_iff.mp same.symm]
    trivial
  | cons cell cells ih =>
    cases other with
    | nil => cases same
    | cons second other =>
      injection same with token same
      rw [Clear, token] at clear
      exact ⟨clear.1, ih same clear.2⟩

theorem depthAfter_congr (depth : ℕ) : depthAfter depth cells = depthAfter depth other := by
  have asTokens : ∀ cells : List Cell, depthAfter depth cells =
      (cells.map Cell.token).foldl Token.nest depth :=
    fun cells => by rw [foldl_map]; rfl
  rw [asTokens, same, ← asTokens]

end

/-- The number of groups a pending size is counted from. -/
def Cell.start : Cell → Option ℕ
  | .known _ _ => none
  | .pendingBreak _ => some 0
  | .pendingBegin _ => some 1
  | .pendingEnd => some 0

/-- Every pending size extends to the end of the cells. -/
def Reaches : List Cell → Prop
  | [] => True
  | cell :: cells => (∀ depth ∈ cell.start, Clear depth cells) ∧ Reaches cells

/-- The end of the cells is inside a group for every pending size. -/
def Deep : List Cell → Prop
  | [] => True
  | cell :: cells => (∀ depth ∈ cell.start, 1 ≤ depthAfter depth cells) ∧ Deep cells

namespace Reaches

theorem push {cell : Cell} (reaches : Reaches cells)
    (deep : ∀ token, cell.token = .breakToken token → Deep cells) : Reaches (cells ++ [cell]) := by
  induction cells with
  | nil =>
    refine ⟨?_, trivial⟩
    intro depth _
    trivial
  | cons first cells ih =>
    refine ⟨?_, ih reaches.2 fun token breaks => (deep token breaks).2⟩
    intro depth member
    refine (clear_append).mpr ⟨reaches.1 depth member, ?_, trivial⟩
    intro token breaks
    exact (deep token breaks).1 depth member

theorem deep_of_break {token : BreakToken} (reaches : Reaches (cells ++ [.pendingBreak token])) :
    Deep cells := by
  induction cells with
  | nil => trivial
  | cons first cells ih =>
    refine ⟨?_, ih reaches.2⟩
    intro depth member
    have clear := (clear_append).mp (reaches.1 depth member)
    exact clear.2.1 token rfl

theorem left (reaches : Reaches (front ++ rest)) : Reaches front := by
  induction front with
  | nil => trivial
  | cons cell front ih =>
    refine ⟨?_, ih reaches.2⟩
    intro depth member
    have clear := (clear_append).mp (reaches.1 depth member)
    exact clear.1

theorem right (reaches : Reaches (front ++ rest)) : Reaches rest := by
  induction front with
  | nil => exact reaches
  | cons cell front ih => exact ih reaches.2

theorem replace {cell : Cell} {post : List Cell} (reaches : Reaches (front ++ cell :: post))
    (found : Cell) (same : cell.token = found.token)
    (known : found.start = none) :
    Reaches (front ++ found :: post) := by
  induction front with
  | nil =>
    refine ⟨?_, reaches.2⟩
    intro depth member
    simp [known] at member
  | cons first front ih =>
    refine ⟨?_, ih reaches.2⟩
    intro depth member
    have tokens : (front ++ cell :: post).map Cell.token =
        (front ++ found :: post).map Cell.token := by
      rw [map_append, map_append, map_cons, map_cons, same]
    exact clear_congr tokens (reaches.1 depth member)

theorem settles {after : List Cell} (reaches : Reaches cells)
    (step : Settles cells after) : Reaches after := by
  cases step <;> exact reaches.replace _ rfl rfl

end Reaches

theorem deep_of_known (known : ∀ cell ∈ cells, cell.isKnown = true) : Deep cells := by
  induction cells with
  | nil => trivial
  | cons cell cells ih =>
    constructor
    · intro depth member
      have here := known cell mem_cons_self
      cases cell with
      | known token size => cases member
      | _ => cases here
    apply ih
    intro other member
    exact known other (mem_cons_of_mem _ member)

theorem deep_append_of_inside (inside : ∀ depth, 1 ≤ depthAfter depth rest) (deep : Deep rest) :
    Deep (front ++ rest) := by
  induction front with
  | nil => exact deep
  | cons cell front ih =>
    refine ⟨?_, ih⟩
    intro depth _
    have split := depthAfter_append depth front rest
    exact split ▸ inside _

/-- What reaches over a break is inside a group there. -/
theorem deep_append_of_break {token : BreakToken} {cell : Cell}
    (reaches : Reaches (front ++ cell :: rest))
    (breaks : cell.token = .breakToken token)
    (flat : ∀ depth, depthAfter depth rest = depth)
    (deep : Deep (cell :: rest)) : Deep (front ++ cell :: rest) := by
  induction front with
  | nil => exact deep
  | cons first front ih =>
    refine ⟨?_, ih reaches.2⟩
    intro depth member
    have clear := (clear_append).mp (reaches.1 depth member)
    have split := depthAfter_append depth front (cell :: rest)
    rw [depthAfter_cons, breaks, flat] at split
    exact split ▸ clear.2.1 token breaks

/-- After `settle` every size that is still pending is inside a group. -/
theorem deep_settleBack {found pending : ℕ} {done : List Cell} {back : List Cell} (after : ℤ)
    (matched : Matched found pending back)
    (reaches : Reaches (back.reverseAux done))
    (known : ∀ cell ∈ done, cell.isKnown = true)
    (closes : Closes (found + pending) done) :
    Deep ((settleBack pending after back).reverseAux done) := by
  induction back generalizing found pending done after with
  | nil => exact deep_of_known known
  | cons cell back ih =>
    have extend : ∀ (token : Token) (size : ℤ),
        ∀ cell ∈ Cell.known token size :: done, cell.isKnown = true :=
      fun _ _ => forall_mem_cons.mpr ⟨rfl, known⟩
    have settled : ∀ size, Reaches (back.reverseAux (.known cell.token size :: done)) := by
      intro size
      rw [reverseAux_cons, reverseAux_eq] at reaches
      rw [reverseAux_eq]
      exact reaches.replace _ rfl rfl
    cases cell with
    | known token size =>
      cases token with
      | string text => exact ih _ matched reaches (extend _ _) closes
      | breakToken token => exact ih _ matched reaches (extend _ _) closes
      | endToken => exact ih _ matched reaches (extend _ _) (closes.ends rfl (by omega))
      | beginToken token =>
        cases found with
        | zero => exact matched.elim
        | succ found => exact ih _ matched reaches (extend _ _) (closes.begins rfl (by omega))
    | pendingEnd =>
      obtain ⟨rfl, matched⟩ := matched
      exact ih _ matched (settled 1) (extend _ _) (closes.ends rfl (by omega))
    | pendingBegin token =>
      obtain ⟨rfl, matched⟩ := matched
      cases pending with
      | zero =>
        have opened : ∀ depth, 1 ≤ depthAfter depth (.pendingBegin token :: done) := by
          intro depth
          rw [depthAfter_cons, closes]
          simp only [Cell.token, Token.nest]
          omega
        rw [settleBack, reverseAux_cons, reverseAux_eq]
        apply deep_append_of_inside opened
        refine ⟨?_, deep_of_known known⟩
        intro depth member
        cases member
        rw [closes]
      | succ pending =>
        exact ih _ matched (settled after) (extend _ _) (closes.begins rfl (by omega))
    | pendingBreak token =>
      obtain ⟨rfl, matched⟩ := matched
      cases pending with
      | zero =>
        have here := settled (token.blankSpace + after)
        rw [settleBack, reverseAux_cons]
        rw [reverseAux_eq] at here ⊢
        exact deep_append_of_break here rfl closes (deep_of_known (extend _ _))
      | succ pending => exact ih _ matched (settled _) (extend _ _) closes

theorem Tidy.deep_settle (tidy : Tidy cells) (reaches : Reaches cells) : Deep (settle cells) := by
  have all : Reaches cells.reverse.reverse := by
    rw [reverse_reverse]
    exact reaches
  exact deep_settleBack 0 tidy.matched all (forall_mem_nil _) closes_nil

theorem Tidy.reaches_settle (tidy : Tidy cells) (reaches : Reaches cells) :
    Reaches (settle cells) :=
  settle_induction tidy.matched (fun _ _ step reaches => Reaches.settles reaches step) reaches

theorem Reaches.scan {draft after : Draft} {token : Token}
    (reaches : Reaches draft.cells) (tidy : Tidy draft.cells)
    (scanned : draft.scan token = some after) : Reaches after.cells := by
  cases Draft.scans scanned with
  | prints => exact reaches
  | streams text _ streamed =>
    have pushed : Reaches (draft.cells ++ [.string text]) :=
      reaches.push fun _ same => by cases same
    obtain ⟨printed, split⟩ := stream_split streamed
    rw [split] at pushed
    exact pushed.right
  | breaks => exact (tidy.reaches_settle reaches).push fun _ _ => tidy.deep_settle reaches
  | begins => exact reaches.push fun _ same => by cases same
  | ends =>
    rcases Draft.endGroup_cases draft.cells with grouped |
      ⟨front, token, split, grouped⟩ | ⟨front, begins, token, split, grouped⟩
    · rw [grouped]
      exact reaches.push fun _ same => by cases same
    · rw [split] at reaches
      rw [grouped]
      exact reaches.left.push fun _ same => by cases same
    rw [split] at reaches
    rw [grouped]
    exact reaches.left

end SwissledgerFoundry.Fmt
