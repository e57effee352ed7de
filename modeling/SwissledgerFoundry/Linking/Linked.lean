import SwissledgerFoundry.Linking.Linker
import SwissledgerFoundry.Collections.Except

/-!
# What linking does to an artifact

Linking with a set of libraries puts the address of every library of the set in
the place of its placeholders, whatever the order of the set.
-/

namespace SwissledgerFoundry.Linking

open List AList Chunk

/-- The placeholders whose library has an address are replaced. -/
def Chunk.linkAll (platform : Platform)
    (addresses : LibPath → Option Address) (chunk : Chunk) : Chunk :=
  ((chunk.library? platform).bind addresses).elim chunk
    (fun address => .bytes (addressBytes address))

variable (platform : Platform) (library : LibPath)

namespace CompactBytecode

def linkAll (platform : Platform) (addresses : LibPath → Option Address)
    (bytecode : CompactBytecode) : CompactBytecode where
  object := bytecode.object.map (Chunk.linkAll platform addresses)
  linkReferences := bytecode.linkReferences.filter fun reference =>
    (addresses (platform.pathNew reference.1, reference.2)).isNone
  exact := by
    intro file name
    rw [List.mem_filter, bytecode.exact, List.mem_map]
    constructor
    · rintro ⟨member, unlinked⟩
      refine ⟨_, member, ?_⟩
      rw [Option.isNone_iff_eq_none] at unlinked
      simp [Chunk.linkAll, Chunk.library?, unlinked]
    rintro ⟨chunk, member, linked⟩
    cases chunk with
    | bytes content => simp [Chunk.linkAll, Chunk.library?] at linked
    | placeholder file' name' =>
      cases unlinked : addresses (platform.pathNew file', name') with
      | none =>
        simp only [Chunk.linkAll, Chunk.library?, Option.bind_some,
          unlinked, Option.elim_none] at linked
        cases linked
        exact ⟨member, by simp [unlinked]⟩
      | some address => simp [Chunk.linkAll, Chunk.library?, unlinked] at linked

section

variable (bytecode : CompactBytecode)

theorem linkAll_none : bytecode.linkAll platform (fun _ => none) = bytecode := by
  have chunks : Chunk.linkAll platform (fun _ => none) = id := by
    funext chunk
    simp [Chunk.linkAll]
  apply CompactBytecode.ext
  · simp [linkAll, chunks]
  · simp [linkAll]

theorem link_eq_linkAll (address : Address) : bytecode.link platform library address =
      bytecode.linkAll platform fun probe => if probe = library then some address else none := by
  apply CompactBytecode.ext
  · apply map_congr_left
    intro chunk _
    cases chunk with
    | bytes content => rfl
    | placeholder file name =>
      by_cases same : (platform.pathNew file, name) = library <;>
        simp [Chunk.linkAll, Chunk.link, Chunk.library?, same]
  apply filter_congr
  intro reference _
  by_cases same : (platform.pathNew reference.1, reference.2) = library <;> simp [same]

theorem linkAll_linkAll (first second : LibPath → Option Address) :
    (bytecode.linkAll platform first).linkAll platform second =
      bytecode.linkAll platform fun probe => (first probe).or (second probe) := by
  apply CompactBytecode.ext
  · simp only [linkAll, map_map]
    apply map_congr_left
    intro chunk _
    cases chunk with
    | bytes content => rfl
    | placeholder file name =>
      cases linked : first (platform.pathNew file, name) <;>
        simp [Chunk.linkAll, Chunk.library?, linked]
  · simp [linkAll, filter_filter, Bool.and_comm]

theorem linkAll_link (address : Address) (addresses : LibPath → Option Address) :
    (bytecode.link platform library address).linkAll platform addresses =
      bytecode.linkAll platform fun probe =>
        if probe = library then some address else addresses probe := by
  rw [link_eq_linkAll, linkAll_linkAll]
  congr 1
  funext probe
  split <;> rfl

theorem link_linkAll {library : LibPath} (address : Address) {addresses : LibPath → Option Address}
    (unlinked : addresses library = none) :
    (bytecode.linkAll platform addresses).link platform library address =
      bytecode.linkAll platform fun probe =>
        if probe = library then some address else addresses probe := by
  rw [link_eq_linkAll, linkAll_linkAll]
  congr 1
  funext probe
  split
  · simp [*]
  · simp

end

variable {bytecode : CompactBytecode}

theorem isUnlinked_iff :
    bytecode.isUnlinked ↔ ∃ file name, (file, name) ∈ bytecode.linkReferences := by
  rw [isUnlinked, any_eq_true]
  constructor
  · rintro ⟨chunk, member, unlinked⟩
    cases chunk with
    | bytes content => cases unlinked
    | placeholder file name => exact ⟨file, name, (bytecode.exact file name).mpr member⟩
  · rintro ⟨file, name, member⟩
    exact ⟨_, (bytecode.exact file name).mp member, rfl⟩

theorem isUnlinked_linkAll_iff {addresses : LibPath → Option Address} {platform : Platform} :
    (bytecode.linkAll platform addresses).isUnlinked ↔
      ∃ file name, (file, name) ∈ bytecode.linkReferences ∧
        addresses (platform.pathNew file, name) = none := by
  simp [isUnlinked_iff, linkAll]

theorem bytes?_isSome_iff : bytecode.bytes?.isSome ↔ bytecode.isUnlinked = false := by
  rw [bytes?, isUnlinked]
  induction bytecode.object with
  | nil => simp
  | cons chunk chunks ih =>
    rw [mapM_cons, any_cons]
    cases chunk with
    | bytes content =>
      have first : (bytes content).content? = some content := rfl
      rw [first, Option.isNone_some, Bool.false_or, ← ih]
      cases chunks.mapM content? <;> rfl
    | placeholder file name => simp [content?]

end CompactBytecode

namespace CompactContractBytecode

def linkAll (platform : Platform) (addresses : LibPath → Option Address)
    (contract : CompactContractBytecode) : CompactContractBytecode where
  bytecode := contract.bytecode.map (·.linkAll platform addresses)
  deployedBytecode := contract.deployedBytecode.map fun deployed =>
    { bytecode := deployed.bytecode.map (·.linkAll platform addresses) }

theorem linkAll_none (contract : CompactContractBytecode) :
    contract.linkAll platform (fun _ => none) = contract := by
  obtain ⟨created, deployed⟩ := contract
  rcases deployed with _ | ⟨_ | deployed⟩
  · simp [linkAll, CompactBytecode.linkAll_none]
  · simp [linkAll, CompactBytecode.linkAll_none]
  · simp [linkAll, CompactBytecode.linkAll_none]

theorem linkAll_link (address : Address) (addresses : LibPath → Option Address)
    (contract : CompactContractBytecode) :
    (contract.link platform library address).linkAll platform addresses =
      contract.linkAll platform fun probe =>
        if probe = library then some address else addresses probe := by
  simp [linkAll, link, Function.comp_def, CompactBytecode.linkAll_link]

end CompactContractBytecode

variable {libraries : Libraries}

namespace Libraries

theorem get?_insert (libraries : Libraries) (library probe : LibPath) (address : String) :
    (libraries.insert library address).get? probe =
      if probe = library then some address else libraries.get? probe := by
  obtain ⟨path, name⟩ := library
  obtain ⟨path', name'⟩ := probe
  simp only [get?, insert, lookup_insert_eq, Prod.mk.injEq]
  by_cases samePath : path' = path
  · subst path'
    rw [if_pos rfl, Option.bind_some, lookup_insert_eq]
    by_cases sameName : name' = name
    · simp [sameName]
    · rw [if_neg sameName, if_neg (by simp [sameName])]
      cases libraries.libs.lookup path <;> rfl
  · rw [if_neg samePath, if_neg (by simp [samePath])]

theorem mem_entries_iff {address : String} {library : LibPath} :
    (library, address) ∈ libraries.entries ↔ libraries.get? library = some address := by
  obtain ⟨path, name⟩ := library
  simp only [entries, get?, mem_flatMap, mem_map, Option.bind_eq_some_iff]
  constructor
  · rintro ⟨⟨file, libs⟩, stored, ⟨lib, text⟩, listed, same⟩
    cases same
    exact ⟨libs, mem_lookup_iff.mpr stored, mem_lookup_iff.mpr listed⟩
  · rintro ⟨libs, stored, listed⟩
    exact ⟨⟨path, libs⟩, mem_lookup_iff.mp stored, ⟨name, address⟩, mem_lookup_iff.mp listed, rfl⟩

def address? (platform : Platform) (libraries : Libraries) (library : LibPath) : Option Address :=
  (libraries.get? library).bind platform.addressFromStr

theorem address?_insert (libraries : Libraries) (library : LibPath) (address : Address) :
    (libraries.insert library (platform.toChecksum address)).address? platform =
      fun probe => if probe = library then some address
        else libraries.address? platform probe := by
  funext probe
  unfold address?
  rw [get?_insert]
  split
  · exact platform.addressFromStr_toChecksum address
  · rfl

def Valid (platform : Platform) (libraries : Libraries) : Prop :=
  ∀ library text, libraries.get? library = some text → (platform.addressFromStr text).isSome

end Libraries

def firstAddress (platform : Platform) (entries : List (LibPath × String))
    (library : LibPath) : Option Address :=
  (entries.find? (fun entry => entry.1 = library)).bind
    (fun entry => platform.addressFromStr entry.2)

theorem firstAddress_entries (libraries : Libraries) :
    firstAddress platform libraries.entries = libraries.address? platform := by
  funext library
  unfold firstAddress Libraries.address?
  cases found : libraries.entries.find? (fun entry => entry.1 = library) with
  | none =>
    have absent : libraries.get? library = none := by
      by_contra present
      obtain ⟨text, stored⟩ := Option.ne_none_iff_exists'.mp present
      have listed := Libraries.mem_entries_iff.mpr stored
      simpa using find?_eq_none.mp found _ listed
    simp [absent]
  | some entry =>
    have same := find?_some found
    have listed := mem_of_find?_eq_some found
    rw [decide_eq_true_eq] at same
    obtain ⟨other, text⟩ := entry
    cases same
    simp [Libraries.mem_entries_iff.mp listed]

namespace Linker

variable {Version : Type} [LinearOrder Version] {platform : Platform} {linker : Linker Version}
  {contract linked : CompactContractBytecode}

theorem linkEntries_eq_ok {entries : List (LibPath × String)}
    (done : entries.foldlM (fun contract entry =>
      match platform.addressFromStr entry.2 with
      | none => .error (.error (.invalidAddress entry.2))
      | some address => .ok (contract.link platform entry.1 address))
      contract = (.ok linked : Except Failure CompactContractBytecode)) :
    linked = contract.linkAll platform (firstAddress platform entries) := by
  induction entries generalizing contract with
  | nil =>
    cases done
    exact (CompactContractBytecode.linkAll_none platform _).symm
  | cons entry entries ih =>
    rw [Except.foldlM_cons_eq, Except.bind_eq_ok_iff] at done
    obtain ⟨next, first, rest⟩ := done
    cases valid : platform.addressFromStr entry.2 with
    | none => simp [valid] at first
    | some address =>
      rw [valid] at first
      cases first
      rw [ih rest, CompactContractBytecode.linkAll_link]
      congr 1
      funext probe
      unfold firstAddress
      by_cases same : entry.1 = probe
      · simp [same, valid]
      · simp [same, Ne.symm same]

variable {target : ArtifactId Version}

theorem link_eq_ok (done : linker.link platform target libraries = .ok linked) :
    ∃ contract, linker.get? target = some contract ∧
      linked = contract.linkAll platform (libraries.address? platform) := by
  unfold link at done
  split at done
  · cases done
  rename_i contract stored
  refine ⟨contract, stored, ?_⟩
  rw [← firstAddress_entries]
  exact linkEntries_eq_ok done

theorem link_succeeds (stored : linker.get? target = some contract)
    (valid : libraries.Valid platform) :
    linker.link platform target libraries =
      .ok (contract.linkAll platform (libraries.address? platform)) := by
  cases done : linker.link platform target libraries with
  | ok linked =>
    obtain ⟨other, same, linked⟩ := link_eq_ok done
    cases stored.symm.trans same
    rw [linked]
  | error failure =>
    unfold link at done
    rw [stored] at done
    obtain ⟨before, entry, after, _, split, _, failed⟩ := Except.foldlM_eq_error done
    have listed : entry ∈ libraries.entries := by simp [split]
    have parsed := valid entry.1 entry.2 (Libraries.mem_entries_iff.mp listed)
    obtain ⟨address, parsed⟩ := Option.isSome_iff_exists.mp parsed
    simp only [parsed] at failed
    cases failed

end Linker

end SwissledgerFoundry.Linking
