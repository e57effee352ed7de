import SwissledgerFoundry.Fmt.Cells

/-!
# Nesting in the buffer

How groups nest in the buffer, and what that says about the sizes that
`settle` fills in.
-/

namespace SwissledgerFoundry.Fmt

open List

/-- The nesting depth after a token.  An end at depth zero closes a group
around the place where counting started. -/
def Token.nest (depth : ℕ) : Token → ℕ
  | .beginToken _ => depth + 1
  | .endToken => depth - 1
  | _ => depth

def depthAfter (depth : ℕ) (cells : List Cell) : ℕ :=
  cells.foldl (fun depth cell => cell.token.nest depth) depth

variable (depth : ℕ)

@[simp] theorem depthAfter_cons (cell : Cell) (cells : List Cell) :
    depthAfter depth (cell :: cells) = depthAfter (cell.token.nest depth) cells := rfl

@[simp] theorem depthAfter_append (front rest : List Cell) :
    depthAfter depth (front ++ rest) = depthAfter (depthAfter depth front) rest :=
  foldl_append

/-- The cells, listed from the back, nest properly: a group and its end have
their sizes found together.  `found` and `pending` count the ends passed whose
group is further to the front. -/
def Matched : ℕ → ℕ → List Cell → Prop
  | _, _, [] => True
  | found, pending, .known token _ :: back =>
    match token with
    | .endToken => Matched (found + 1) pending back
    | .beginToken _ =>
      match found with
      | 0 => False
      | found + 1 => Matched found pending back
    | _ => Matched found pending back
  | found, pending, .pendingEnd :: back => found = 0 ∧ Matched 0 (pending + 1) back
  | found, pending, .pendingBegin _ :: back => found = 0 ∧ Matched 0 (pending - 1) back
  | found, pending, .pendingBreak _ :: back => found = 0 ∧ Matched 0 pending back

variable {back : List Cell} {pending found : ℕ}

namespace Matched

/-- More pending ends are allowed, and cells that allow as many may be
exchanged. -/
theorem exchange {rest other : List Cell} (same : ∀ {found pending}, Matched found pending rest →
      ∀ {more}, pending ≤ more → Matched found more other)
    (matched : Matched found pending (back ++ rest)) {more : ℕ} (fewer : pending ≤ more) :
    Matched found more (back ++ other) := by
  induction back generalizing found pending more with
  | nil => exact same matched fewer
  | cons cell back ih =>
    cases cell with
    | known token size =>
      cases token with
      | string text => exact ih matched fewer
      | breakToken token => exact ih matched fewer
      | endToken => exact ih matched fewer
      | beginToken token =>
        cases found with
        | zero => exact matched
        | succ found => exact ih matched fewer
    | pendingEnd => exact ⟨matched.1, ih matched.2 (Nat.succ_le_succ fewer)⟩
    | pendingBreak token => exact ⟨matched.1, ih matched.2 fewer⟩
    | pendingBegin token => exact ⟨matched.1, ih matched.2 (Nat.sub_le_sub_right fewer 1)⟩

theorem more (matched : Matched found pending back) {more : ℕ} (fewer : pending ≤ more) :
    Matched found more back := by
  rw [← append_nil back] at matched ⊢
  apply matched.exchange _ fewer
  intros
  trivial

theorem settleBack (matched : Matched found pending back) (after : ℤ) :
    Matched (found + pending) 0 (settleBack pending after back) := by
  induction back generalizing found pending after with
  | nil => trivial
  | cons cell back ih =>
    cases cell with
    | known token size =>
      cases token with
      | string text => exact ih matched _
      | breakToken token => exact ih matched _
      | endToken =>
        have next := ih matched (Token.endToken.width + after)
        rw [Nat.add_right_comm] at next
        exact next
      | beginToken token =>
        cases found with
        | zero => exact matched.elim
        | succ found =>
          rw [Nat.succ_add]
          exact ih matched _
    | pendingEnd =>
      obtain ⟨rfl, matched⟩ := matched
      have next := ih matched after
      exact next
    | pendingBegin token =>
      obtain ⟨rfl, matched⟩ := matched
      cases pending with
      | zero => exact ⟨rfl, matched⟩
      | succ pending =>
        have next := ih matched after
        exact next
    | pendingBreak token =>
      obtain ⟨rfl, matched⟩ := matched
      cases pending with
      | zero => exact matched
      | succ pending =>
        have next := ih matched (token.blankSpace + after)
        exact next

end Matched

/-- One size is found.  What follows a group or a break whose size is found
leads out to the level of that group or break. -/
inductive Settles : List Cell → List Cell → Prop
  | ends (front post : List Cell) :
      Settles (front ++ .pendingEnd :: post) (front ++ .known .endToken 1 :: post)
  | begins (front : List Cell) (token : BeginToken) (post : List Cell)
      (leads : depthAfter 1 post = 0) :
      Settles (front ++ .pendingBegin token :: post)
        (front ++ .known (.beginToken token) (widths post) :: post)
  | breaks (front : List Cell) (token : BreakToken) (post : List Cell)
      (leads : depthAfter 0 post = 0) :
      Settles (front ++ .pendingBreak token :: post)
        (front ++ .known (.breakToken token) (token.blankSpace + widths post) :: post)

/-- The cells lead out of `closed` groups. -/
def Closes (closed : ℕ) (cells : List Cell) : Prop :=
  ∀ depth, depthAfter depth cells = depth - closed

theorem closes_nil : Closes 0 [] := fun _ => rfl

namespace Closes

variable {closed after : ℕ} {post : List Cell} {cell : Cell}

theorem ends (closes : Closes closed post) (token : cell.token = .endToken)
    (more : after = closed + 1) : Closes after (cell :: post) := by
  intro depth
  rw [depthAfter_cons, token, closes, Token.nest]
  omega

theorem begins {begin_ : BeginToken} (closes : Closes closed post)
    (token : cell.token = .beginToken begin_) (more : closed = after + 1) :
    Closes after (cell :: post) := by
  intro depth
  rw [depthAfter_cons, token, closes, Token.nest]
  omega

end Closes

theorem settleBack_settles {post : List Cell} (matched : Matched found pending back)
    (closes : Closes (found + pending) post) :
    Relation.ReflTransGen Settles (back.reverseAux post)
      ((settleBack pending (widths post) back).reverseAux post) := by
  induction back generalizing found pending post with
  | nil => exact .refl
  | cons cell back ih =>
    cases cell with
    | known token size =>
      cases token with
      | string text => exact ih matched closes
      | breakToken token => exact ih matched closes
      | endToken => exact ih matched (closes.ends rfl (by omega))
      | beginToken token =>
        cases found with
        | zero => exact matched.elim
        | succ found => exact ih matched (closes.begins rfl (by omega))
    | pendingEnd =>
      obtain ⟨rfl, matched⟩ := matched
      have step := Settles.ends back.reverse post
      rw [← reverseAux_eq, ← reverseAux_eq] at step
      apply Relation.ReflTransGen.head step
      have same : widths post = widths (.known .endToken 1 :: post) := (Int.zero_add _).symm
      rw [same]
      exact ih matched (closes.ends rfl (by omega))
    | pendingBegin token =>
      obtain ⟨rfl, matched⟩ := matched
      cases pending with
      | zero => exact .refl
      | succ pending =>
        have leads : depthAfter 1 post = 0 := by
          rw [closes]
          omega
        have step := Settles.begins back.reverse token post leads
        rw [← reverseAux_eq, ← reverseAux_eq] at step
        apply Relation.ReflTransGen.head step
        have same : widths post = widths (.known (.beginToken token) (widths post) :: post) :=
          (Int.zero_add _).symm
        rw [same]
        exact ih matched (closes.begins rfl (by omega))
    | pendingBreak token =>
      obtain ⟨rfl, matched⟩ := matched
      have leads : depthAfter 0 post = 0 := by rw [closes, Nat.zero_sub]
      have step := Settles.breaks back.reverse token post leads
      rw [← reverseAux_eq, ← reverseAux_eq] at step
      cases pending with
      | zero => exact .single step
      | succ pending => exact .head step (ih matched closes)

variable {cells : List Cell}

theorem settle_settles (matched : Matched 0 0 cells.reverse) :
    Relation.ReflTransGen Settles cells (settle cells) := by
  have steps : Relation.ReflTransGen Settles cells.reverse.reverse
      (settle cells) := settleBack_settles matched closes_nil
  rw [reverse_reverse] at steps
  exact steps

/-- A property that finding one size preserves survives `settle`. -/
theorem settle_induction {motive : List Cell → Prop} (matched : Matched 0 0 cells.reverse)
    (step : ∀ before after, Settles before after → motive before → motive after)
    (initial : motive cells) : motive (settle cells) := by
  have steps := settle_settles matched
  generalize settle cells = settled at steps
  induction steps with
  | refl => exact initial
  | tail _ last ih => exact step _ _ last ih

theorem settleBack_split (after : ℤ) (back : List Cell) :
    ∃ rest done kept, back = rest ++ kept ∧ settleBack depth after back = done ++ kept ∧
      ∀ cell ∈ done, cell.isKnown = true := by
  induction back generalizing depth after with
  | nil => exact ⟨[], [], [], rfl, rfl, forall_mem_nil _⟩
  | cons cell back ih =>
    have extend : ∀ (token : Token) (size : ℤ) (depth : ℕ) (after : ℤ),
        ∃ rest done kept, cell :: back = rest ++ kept ∧
          .known token size :: settleBack depth after back = done ++ kept ∧
          ∀ cell ∈ done, cell.isKnown = true := by
      intro token size depth after
      obtain ⟨rest, done, kept, split, settled, known⟩ := ih depth after
      refine ⟨cell :: rest, .known token size :: done, kept, ?_, ?_, ?_⟩
      · rw [split, cons_append]
      · rw [settled, cons_append]
      · exact forall_mem_cons.mpr ⟨rfl, known⟩
    cases cell with
    | known token size => exact extend token size _ _
    | pendingEnd => exact extend _ _ _ _
    | pendingBegin token =>
      cases depth with
      | zero => exact ⟨[], [], _, rfl, rfl, forall_mem_nil _⟩
      | succ depth => exact extend _ _ _ _
    | pendingBreak token =>
      cases depth with
      | zero => exact ⟨[_], [_], back, rfl, rfl, forall_mem_singleton.mpr rfl⟩
      | succ depth => exact extend _ _ _ _

theorem settle_split (cells : List Cell) :
    ∃ kept rest done, cells = kept ++ rest ∧ settle cells = kept ++ done ∧
      ∀ cell ∈ done, cell.isKnown = true := by
  obtain ⟨rest, done, kept, split, settled, known⟩ := settleBack_split 0 0 cells.reverse
  refine ⟨kept.reverse, rest.reverse, done.reverse, ?_, ?_, ?_⟩
  · rw [← reverse_append, ← split, reverse_reverse]
  · rw [settle, settled, reverse_append]
  · intro cell member
    exact known cell (mem_reverse.mp member)

end SwissledgerFoundry.Fmt
