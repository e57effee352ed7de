import SwissledgerFoundry.Collections.Iteration

/-!
# Remappings

The remappings of libraries are pushed behind those of the user.  One of each
key is kept, and the key is the context followed by the name.
-/

namespace SwissledgerFoundry.Config

open List

structure Remapping where
  context : Option (List Char)
  name : List Char
  path : List Char
deriving DecidableEq

structure Remappings where
  remappings : List Remapping
  projectPaths : List Remapping

def filterKey (remapping : Remapping) : List Char :=
  match remapping.context with
  | some context => context ++ remapping.name
  | none => remapping.name

/-- The filter of `into_inner`, with the keys that it has seen. -/
def unseen (seen : List (List Char)) : List Remapping → List Remapping
  | [] => []
  | remapping :: rest =>
    if seen.contains (filterKey remapping) then unseen seen rest
    else remapping :: unseen (filterKey remapping :: seen) rest

def isSol (text : List Char) : Bool := ".sol".toList.isSuffixOf text

/-- The test of `push` against a remapping that is there. -/
def isConflicting (remapping existing : Remapping) : Bool :=
  if isSol remapping.name then
    existing.name = remapping.name && existing.context = remapping.context &&
      existing.path = remapping.path
  else
    let existingNamePath :=
      if ['/'].isSuffixOf existing.name then existing.name else existing.name ++ ['/']
    (existingNamePath.isPrefixOf remapping.name || remapping.name.isPrefixOf existing.name) &&
      existing.context = remapping.context

def eqIgnoreAsciiCase (left right : List Char) : Bool :=
  left.map Char.toLower = right.map Char.toLower

namespace Remappings

variable (self : Remappings)

def intoInner : List Remapping := unseen [] self.remappings

def push (remapping : Remapping) : Remappings :=
  if isSol remapping.name && !isSol remapping.path then self
  else if self.remappings.any (isConflicting remapping) then self
  else if self.projectPaths.any (eqIgnoreAsciiCase remapping.name ·.name) then self
  else { self with remappings := self.remappings ++ [remapping] }

def extend (remappings : List Remapping) : Remappings :=
  remappings.foldl push self

end Remappings

def Remapping.pair (remapping : Remapping) : Option (List Char) × List Char :=
  (remapping.context, remapping.name)

/-- Why the remapping of a library may be missing. -/
def Refused (projectPaths earlier : List Remapping) (remapping : Remapping) : Prop :=
  isSol remapping.name ∧ ¬ isSol remapping.path ∨
    (∃ path ∈ projectPaths, eqIgnoreAsciiCase remapping.name path.name) ∨
    ∃ existing ∈ earlier, existing.context = remapping.context ∧
      (existing.name <+: remapping.name ∨ remapping.name <+: existing.name)

structure KeepsFirsts (projectPaths user libs result : List Remapping) : Prop where
  ordered : result <+ user ++ libs
  once : result.Pairwise (·.pair ≠ ·.pair)
  firsts : ∀ before first, before ++ [first] <+: user →
    (∀ other ∈ before, other.pair ≠ first.pair) → first ∈ result
  refused : ∀ before lib, before ++ [lib] <+: libs → lib ∉ result →
    Refused projectPaths (user ++ before) lib

/-- Contexts and names that differ have different keys. -/
def Apart (remappings : List Remapping) : Prop :=
  ∀ left ∈ remappings, ∀ right ∈ remappings,
    filterKey left = filterKey right → left.pair = right.pair

/-- The remapping of a library is turned away by those that stand. -/
def excluded (projectPaths standing : List Remapping) (lib : Remapping) : Bool :=
  isSol lib.name && !isSol lib.path || standing.any (isConflicting lib) ||
    projectPaths.any (eqIgnoreAsciiCase lib.name ·.name)

/-- A library's remapping that nothing refuses has a key of its own among those
that stand in front of it: the user's, and the libraries' that were not turned
away. -/
def Distinguished (projectPaths : List Remapping) :
    List Remapping → List Remapping → List Remapping → Prop
  | _, _, [] => True
  | earlier, standing, lib :: rest =>
    (Refused projectPaths earlier lib ∨ ∀ other ∈ standing, filterKey other ≠ filterKey lib) ∧
      Distinguished projectPaths (earlier ++ [lib])
        (if excluded projectPaths standing lib then standing else standing ++ [lib]) rest

theorem unseen_sublist {seen : List (List Char)} {items : List Remapping} :
    unseen seen items <+ items := by
  induction items generalizing seen with
  | nil => exact .slnil
  | cons first rest ih =>
    rw [unseen]
    split
    · exact ih.cons _
    · exact ih.cons_cons _

theorem unseen_pairwise {seen : List (List Char)} {items : List Remapping} :
    (∀ item ∈ unseen seen items, filterKey item ∉ seen) ∧
      (unseen seen items).Pairwise (filterKey · ≠ filterKey ·) := by
  induction items generalizing seen with
  | nil => simp [unseen]
  | cons first rest ih =>
    rw [unseen]
    split
    · exact ih
    · rename_i new
      obtain ⟨fresh, distinct⟩ := @ih (filterKey first :: seen)
      exact ⟨by grind, distinct.cons (by grind)⟩

theorem mem_unseen_iff (seen : List (List Char)) {earlier : List Remapping} {item : Remapping}
    (later : List Remapping) (new : item ∉ earlier) :
    item ∈ unseen seen (earlier ++ item :: later) ↔
      filterKey item ∉ seen ∧ ∀ other ∈ earlier, filterKey other ≠ filterKey item := by
  refine ⟨fun kept => ⟨unseen_pairwise.1 item kept, ?_⟩, ?_⟩
  · induction earlier generalizing seen with
    | nil => simp
    | cons first rest ih => grind [unseen, unseen_pairwise]
  · induction earlier generalizing seen with
    | nil => grind [unseen]
    | cons first rest ih => grind [unseen]

theorem refused_of_excluded {projectPaths standing earlier : List Remapping} {lib : Remapping}
    (within : standing ⊆ earlier) (out : excluded projectPaths standing lib) :
    Refused projectPaths earlier lib := by
  simp only [excluded, Bool.or_eq_true] at out
  obtain (sol | conflicts) | project := out
  · exact .inl (by simpa using sol)
  · obtain ⟨existing, member, conflicts⟩ := any_eq_true.mp conflicts
    refine .inr (.inr ⟨existing, within member, ?_⟩)
    unfold isConflicting at conflicts
    grind
  · exact .inr (.inl (any_eq_true.mp project))

theorem push_eq (self : Remappings) (remapping : Remapping) :
    self.push remapping = { self with
      remappings := if excluded self.projectPaths self.remappings remapping then self.remappings
        else self.remappings ++ [remapping] } := by
  obtain ⟨remappings, projectPaths⟩ := self
  unfold Remappings.push excluded
  grind

theorem extend_cons (self : Remappings) (lib : Remapping) (rest : List Remapping) :
    self.extend (lib :: rest) = (self.push lib).extend rest :=
  rfl

theorem extend_eq (self : Remappings) (added : List Remapping) : ∃ kept, kept <+ added ∧
      self.extend added = { self with remappings := self.remappings ++ kept } := by
  induction added generalizing self with
  | nil => exact ⟨[], .slnil, by simp [Remappings.extend]⟩
  | cons next rest ih =>
    obtain ⟨kept, sublist, extended⟩ := ih (self.push next)
    rw [extend_cons, extended, push_eq]
    split
    · exact ⟨kept, sublist.cons _, rfl⟩
    · exact ⟨next :: kept, sublist.cons_cons _, by simp⟩

/-- Another key for each new pair. -/
theorem apart_iff (remappings : List Remapping) :
    (∀ before first, before ++ [first] <+: remappings →
        (∀ other ∈ before, other.pair ≠ first.pair) →
        ∀ other ∈ before, filterKey other ≠ filterKey first) ↔ Apart remappings := by
  constructor
  · intro firsts
    induction remappings using List.reverseRecOn with
    | nil => simp [Apart]
    | append_singleton front last ih =>
      have apart := ih fun before first within =>
        firsts before first (within.trans (prefix_append ..))
      -- A remapping with the key of the last one has its pair.
      have ends : ∀ other ∈ front, filterKey other = filterKey last → other.pair = last.pair := by
        intro other member same
        by_contra different
        obtain ⟨twin, twinMember, pair⟩ : ∃ twin ∈ front, twin.pair = last.pair := by
          by_contra! none
          exact firsts front last prefix_rfl none other member same
        refine different ((apart other member twin twinMember (same.trans ?_)).trans pair)
        obtain ⟨context, name⟩ := Prod.mk.inj pair
        rw [filterKey, filterKey, context, name]
      intro left leftMember right rightMember same
      rw [mem_append, mem_singleton] at leftMember rightMember
      obtain leftMember | rfl := leftMember <;> obtain rightMember | rfl := rightMember
      · exact apart left leftMember right rightMember same
      · exact ends left leftMember same
      · exact (ends right rightMember same.symm).symm
      · rfl
  · intro apart before first within new other member same
    have whole := within.subset
    exact new other member
      (apart other (whole (by simp [member])) first (whole (by simp)) same)

/-- What `refused` says, from the remappings that stand on. -/
theorem distinguished_iff {projectPaths earlier standing : List Remapping} (libs : List Remapping)
    (within : standing ⊆ earlier) :
    (∀ before lib, before ++ [lib] <+: libs →
        lib ∉ (Remappings.extend ⟨standing, projectPaths⟩ libs).intoInner →
        Refused projectPaths (earlier ++ before) lib) ↔
      Distinguished projectPaths earlier standing libs := by
  induction libs generalizing earlier standing with
  | nil => simp [Distinguished]
  | cons lib rest ih =>
    have next := @ih (earlier ++ [lib])
      (if excluded projectPaths standing lib then standing else standing ++ [lib])
      (by split <;> grind)
    rw [Distinguished, ← next, extend_cons, push_eq]
    have here : (lib ∉ (Remappings.extend ⟨if excluded projectPaths standing lib then standing
          else standing ++ [lib], projectPaths⟩ rest).intoInner →
          Refused projectPaths earlier lib) ↔
        (Refused projectPaths earlier lib ∨
          ∀ other ∈ standing, filterKey other ≠ filterKey lib) := by
      by_cases refused : Refused projectPaths earlier lib
      · simp [refused]
      have stays : ¬ excluded projectPaths standing lib :=
        fun out => refused (refused_of_excluded within out)
      have new : lib ∉ standing :=
        fun member => refused (.inr (.inr ⟨lib, within member, rfl, .inl prefix_rfl⟩))
      obtain ⟨kept, _, extended⟩ := extend_eq ⟨standing ++ [lib], projectPaths⟩ rest
      have key := mem_unseen_iff [] kept new
      rw [if_neg stays, extended, Remappings.intoInner, append_assoc, singleton_append, key]
      simp [refused]
    constructor
    · intro all
      refine ⟨here.mp ?_, ?_⟩
      · simpa using all [] lib (by simp)
      · intro before other start missing
        simpa using all (lib :: before) other (by simpa using start) missing
    · rintro ⟨first, others⟩ before other start missing
      cases before with
      | nil =>
        obtain rfl : other = lib := by simpa using start
        simpa using here.mpr first missing
      | cons head before =>
        obtain ⟨rfl, inner⟩ : head = lib ∧ before ++ [other] <+: rest := by simpa using start
        simpa using others before other inner missing

/-- Pushing the remapping has no effect. -/
def Settled (remapping : Remapping) (self : Remappings) : Prop := self.push remapping = self

theorem settled_iff (remapping : Remapping) (self : Remappings) :
    Settled remapping self ↔ excluded self.projectPaths self.remappings remapping := by
  obtain ⟨remappings, projectPaths⟩ := self
  rw [Settled, push_eq]
  split_ifs with out <;> simp [out]

theorem settled_push (remapping : Remapping) (self : Remappings) :
    Settled remapping (self.push remapping) := by
  have conflicts : isConflicting remapping remapping = true := by
    unfold isConflicting
    split <;> simp
  rw [settled_iff, push_eq]
  split_ifs with out
  · exact out
  · simp [excluded, conflicts]

theorem Settled.push {remapping : Remapping} {self : Remappings} (settled : Settled remapping self)
    (other : Remapping) : Settled remapping (self.push other) := by
  rw [settled_iff] at settled ⊢
  rw [push_eq]
  split_ifs
  · exact settled
  · simp only [excluded, any_append, Bool.or_eq_true] at settled ⊢
    tauto

/-- Remappings that were pushed once can be pushed again at any time without
an effect. -/
theorem extend_extend (self : Remappings) (libs more : List Remapping) :
    (self.extend (libs ++ more)).extend libs = self.extend (libs ++ more) := by
  have settled : ∀ lib ∈ libs, Settled lib (self.extend (libs ++ more)) := by
    intro lib member
    exact foldl_establishes (fun _ => True) (mem_append_left more member) trivial
      (fun _ _ _ => trivial) (fun state _ => settled_push lib state)
      (fun _ other _ settled => settled.push other)
  generalize self.extend (libs ++ more) = extended at settled ⊢
  induction libs with
  | nil => rfl
  | cons lib libs ih =>
    rw [Remappings.extend, foldl_cons, settled lib mem_cons_self]
    exact ih fun other member => settled other (mem_cons_of_mem lib member)

end SwissledgerFoundry.Config
