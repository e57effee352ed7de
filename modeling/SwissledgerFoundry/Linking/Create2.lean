import SwissledgerFoundry.Linking.Nonce
import SwissledgerFoundry.Collections.TopologicalOrder
import SwissledgerFoundry.Collections.Loop

/-!
# Linking by CREATE2

The address of a library is computed from its linked bytecode, so a library is
deployed after the libraries that its creation bytecode refers to.
-/

namespace SwissledgerFoundry.Linking

open Option Except Nat List CompactBytecode Libraries

variable {bytecode : CompactBytecode}

namespace CompactBytecode

theorem link_of_linked {platform : Platform} {library : LibPath} {address : Address}
    (linked : bytecode.isUnlinked = false) :
    bytecode.link platform library address = bytecode := by
  have noReference : bytecode.linkReferences = [] := by
    apply eq_nil_iff_forall_not_mem.mpr
    intro reference member
    have unlinked := isUnlinked_iff.mpr ⟨_, _, member⟩
    simp [linked] at unlinked
  apply CompactBytecode.ext
  · have unchanged : ∀ chunk ∈ bytecode.object,
        Chunk.link platform library address chunk = chunk := by
      intro chunk member
      cases chunk with
      | bytes content => simp [Chunk.link, Chunk.library?]
      | placeholder file name =>
        have listed := (bytecode.exact file name).mpr member
        simp [noReference] at listed
    exact (map_congr_left unchanged).trans (map_id' _)
  · simp [link, noReference]

end CompactBytecode

namespace Linker

open Relation

variable {Version : Type} [LinearOrder Version] {platform : Platform}
  {linker : Linker Version}

def Creation (linker : Linker Version) (id : ArtifactId Version)
    (bytecode : CompactBytecode) : Prop :=
  ∃ contract, linker.get? id = some contract ∧ contract.bytecode = some bytecode

section

variable (platform : Platform) (linker : Linker Version) (libraries : Libraries)

/-- A library reachable from the target that the user did not supply. -/
def Unsupplied (target id : ArtifactId Version) : Prop :=
  linker.ReachableLibrary platform [target] id ∧
    (linker.supplied platform libraries).get? (linker.convertArtifactIdToLibPath id) = none

/-- The creation bytecode of a library that was not supplied refers to another
such library. -/
def CreationEdge (target id dep : ArtifactId Version) : Prop :=
  linker.Unsupplied platform libraries target id ∧
  linker.Unsupplied platform libraries target dep ∧
  ∃ bytecode file name, linker.Creation id bytecode ∧ (file, name) ∈ bytecode.linkReferences ∧
    linker.resolve platform id file name = some dep

end

/-- Artifacts of one compiler version in which every reference that is
reachable from the target has an artifact, every library to deploy has
creation bytecode, and the addresses supplied by the user are valid. -/
structure Deployable (platform : Platform) (linker : Linker Version)
    (libraries : Libraries) (target : ArtifactId Version) : Prop where
  version : ∀ left ∈ linker.contracts, ∀ right ∈ linker.contracts, left.1.version = right.1.version
  valid : (linker.supplied platform libraries).Valid platform
  stored : (linker.get? target).isSome
  resolved : ∀ file name, ¬ linker.MissingReference platform [target] file name
  created : ∀ id, linker.Unsupplied platform libraries target id →
    ∃ bytecode, linker.Creation id bytecode

variable {id : ArtifactId Version}

/-- With a single version, a library is determined by its path and name. -/
theorem Deployable.key_injective {libraries : Libraries} {target left right : ArtifactId Version}
    (deployable : Deployable platform linker libraries target)
    (leftReachable : linker.ReachableLibrary platform [target] left)
    (rightReachable : linker.ReachableLibrary platform [target] right)
    (same : linker.convertArtifactIdToLibPath left =
      linker.convertArtifactIdToLibPath right) : left = right := by
  obtain ⟨_, _, leftPath⟩ := leftReachable
  obtain ⟨_, _, rightPath⟩ := rightReachable
  obtain ⟨leftSource, _, file, name, leftRefers, leftFound⟩ := TransGen.tail'_iff.mp leftPath
  obtain ⟨rightSource, _, file', name', rightRefers, rightFound⟩ := TransGen.tail'_iff.mp rightPath
  have storedOf : ∀ {source file name}, linker.Refers source file name →
      ∃ entry ∈ linker.contracts, entry.1 = source := by
    intro source file name refers
    obtain ⟨contract, stored, _⟩ := refers
    rw [← get?_isSome_iff, stored]
    rfl
  obtain ⟨leftEntry, leftStored, rfl⟩ := storedOf leftRefers
  obtain ⟨rightEntry, rightStored, rfl⟩ := storedOf rightRefers
  rw [(resolve_eq_some leftFound).2.2, (resolve_eq_some rightFound).2.2] at same
  unfold resolve findArtifactIdByLibraryPath at leftFound rightFound
  rw [same, deployable.version leftEntry leftStored rightEntry rightStored, rightFound] at leftFound
  exact (some.inj leftFound).symm

/-- The libraries deployed so far, in order, with their bytecode and their
addresses. -/
structure Progress (platform : Platform) (linker : Linker Version)
    (libraries : Libraries) (sender : Address) (salt : B256)
    (target : ArtifactId Version) (current : Libraries)
    (codes : List Bytes) (deployed : List (ArtifactId Version)) :
    Prop where
  kept : ∀ library text, (linker.supplied platform libraries).get? library = some text →
    current.get? library = some text
  exact : ∀ library text, current.get? library = some text →
    (linker.supplied platform libraries).get? library = some text ∨
      library ∈ deployed.map linker.convertArtifactIdToLibPath
  ordered : TopologicalOrder.Ordered (linker.CreationEdge platform libraries target) deployed
  length : codes.length = deployed.length
  deploys : ∀ (index : ℕ) id code, deployed[index]? = some id → codes[index]? = some code →
    (∃ bytecode, linker.Creation id bytecode ∧
      (bytecode.linkAll platform (current.address? platform)).bytes? = some code) ∧
    current.get? (linker.convertArtifactIdToLibPath id) =
      some (platform.toChecksum (platform.create2FromCode sender salt code))

/-- The state of the loop: the libraries that are not deployed yet are linked
with all the addresses known so far. -/
structure Deploying (platform : Platform) (linker : Linker Version)
    (libraries : Libraries) (sender : Address) (salt : B256)
    (target : ArtifactId Version) (current : Libraries)
    (needed : List (ArtifactId Version × CompactBytecode))
    (codes : List Bytes) (deployed : List (ArtifactId Version)) : Prop
    extends Progress platform linker libraries sender salt target current codes deployed where
  nodup : (deployed ++ needed.map Prod.fst).Nodup
  unsupplied : ∀ id, id ∈ deployed ++ needed.map Prod.fst ↔
    linker.Unsupplied platform libraries target id
  valid : current.Valid platform
  linking : ∀ entry ∈ needed, ∃ bytecode, linker.Creation entry.1 bytecode ∧
    entry.2 = bytecode.linkAll platform (current.address? platform)

structure LinkedByCreate2 (platform : Platform) (linker : Linker Version)
    (libraries : Libraries) (sender : Address) (salt : B256)
    (target : ArtifactId Version) (output : LinkOutput)
    (deployed : List (ArtifactId Version)) : Prop
    extends Progress platform linker libraries sender salt target
      output.libraries output.libsToDeploy deployed where
  nodup : deployed.Nodup
  unsupplied : ∀ id, id ∈ deployed ↔ linker.Unsupplied platform libraries target id

section

variable {libraries current : Libraries} {sender : Address} {salt : B256}
  {target : ArtifactId Version}
  {needed : List (ArtifactId Version × CompactBytecode)}
  {codes : List Bytes} {deployed : List (ArtifactId Version)}

section

variable (deployable : Deployable platform linker libraries target)
  (deploying : Deploying platform linker libraries sender salt target current needed codes deployed)

include deployable deploying

theorem Deploying.fresh (pending : id ∈ needed.map Prod.fst) :
    current.get? (linker.convertArtifactIdToLibPath id) = none := by
  have unsupplied := (deploying.unsupplied id).mp (mem_append_right deployed pending)
  by_contra present
  obtain ⟨text, found⟩ := ne_none_iff_exists'.mp present
  rcases deploying.exact _ text found with user | earlier
  · simp [unsupplied.2] at user
  obtain ⟨other, member, same⟩ := mem_map.mp earlier
  have otherUnsupplied := (deploying.unsupplied other).mp (mem_append_left _ member)
  cases deployable.key_injective otherUnsupplied.1 unsupplied.1 same
  exact (nodup_append.mp deploying.nodup).2.2 id member id pending rfl

/-- An unlinked library of the loop refers to another library of the loop. -/
theorem Deploying.exists_edge {entry : ArtifactId Version × CompactBytecode}
    (member : entry ∈ needed) (unlinked : entry.2.isUnlinked) :
    ∃ dep ∈ needed.map Prod.fst, linker.CreationEdge platform libraries target entry.1 dep := by
  have unsupplied := (deploying.unsupplied entry.1).mp
    (mem_append_right deployed (mem_map_of_mem member))
  obtain ⟨bytecode, creation, linked⟩ := deploying.linking entry member
  rw [linked, isUnlinked_linkAll_iff] at unlinked
  obtain ⟨file, name, listed, missing⟩ := unlinked
  obtain ⟨contract, stored, created⟩ := creation
  have refers : linker.Refers entry.1 file name :=
    ⟨contract, stored, .inl ⟨bytecode, created, listed⟩⟩
  obtain ⟨root, rootListed, path⟩ := unsupplied.1
  cases found : linker.resolve platform entry.1 file name with
  | none =>
    refine absurd ?_ (deployable.resolved file name)
    exact ⟨entry.1, ⟨root, rootListed, path.to_reflTransGen⟩, refers, found⟩
  | some dep =>
    have key := (resolve_eq_some found).2.2
    have noAddress : current.get? (linker.convertArtifactIdToLibPath dep) = none := by
      by_contra present
      obtain ⟨text, written⟩ := ne_none_iff_exists'.mp present
      obtain ⟨address, parsed⟩ := isSome_iff_exists.mp (deploying.valid _ text written)
      rw [← key, address?, written] at missing
      simp [parsed] at missing
    have depUnsupplied : linker.Unsupplied platform libraries target dep := by
      refine ⟨⟨root, rootListed, path.tail ⟨file, name, refers, found⟩⟩, ?_⟩
      by_contra present
      obtain ⟨text, user⟩ := ne_none_iff_exists'.mp present
      simp [deploying.kept _ text user] at noAddress
    have pending := (deploying.unsupplied dep).mpr depUnsupplied
    refine ⟨dep, (mem_append.mp pending).resolve_left ?_, unsupplied,
      depUnsupplied, bytecode, file, name, ⟨contract, stored, created⟩,
      listed, found⟩
    intro earlier
    obtain ⟨index, at_index⟩ := getElem?_of_mem earlier
    have bounded := (List.getElem?_eq_some_iff.mp at_index).1
    rw [← deploying.length] at bounded
    have recorded := (deploying.deploys index dep codes[index] at_index
      (getElem?_eq_getElem bounded)).2
    simp [recorded] at noAddress

/-- When no library of the loop is linked, the references form a cycle. -/
theorem Deploying.exists_cycle (nonempty : needed ≠ [])
    (stuck : ∀ entry ∈ needed, entry.2.isUnlinked) :
    ∃ id, TransGen (linker.CreationEdge platform libraries target) id id := by
  apply TopologicalOrder.exists_cycle (needed.map Prod.fst)
  · simpa using nonempty
  intro id member
  obtain ⟨entry, listed, rfl⟩ := mem_map.mp member
  exact deploying.exists_edge deployable listed (stuck entry listed)

end

variable {code : Bytes}

/-- The deployed code does not change when another library is linked. -/
theorem linkAll_insert_of_bytes {library : LibPath} {address : Address}
    (fresh : current.get? library = none)
    (linked : (bytecode.linkAll platform (current.address? platform)).bytes? = some code) :
    (bytecode.linkAll platform ((current.insert library
      (platform.toChecksum address)).address? platform)).bytes? = some code := by
  have unlinked : current.address? platform library = none := by simp [address?, fresh]
  have complete : (bytecode.linkAll platform (current.address? platform)).isUnlinked = false := by
    simp [← bytes?_isSome_iff, linked]
  rw [address?_insert, ← link_linkAll platform bytecode address unlinked, link_of_linked complete]
  exact linked

section

variable (deployable : Deployable platform linker libraries target)

include deployable

section

variable (deploying : Deploying platform linker libraries sender salt target current needed codes
    deployed)

include deploying

theorem Progress.deploy (member : (id, bytecode) ∈ needed) (linked : bytecode.bytes? = some code) :
    Progress platform linker libraries sender salt target
      (current.insert (linker.convertArtifactIdToLibPath id)
        (platform.toChecksum (platform.create2FromCode sender salt code)))
      (codes ++ [code]) (deployed ++ [id]) := by
  have pending : id ∈ needed.map Prod.fst := mem_map_of_mem member
  have fresh := deploying.fresh deployable pending
  have lookup := fun probe => current.get?_insert (linker.convertArtifactIdToLibPath id) probe
    (platform.toChecksum (platform.create2FromCode sender salt code))
  obtain ⟨original, creation, same⟩ := deploying.linking _ member
  dsimp only at same
  subst bytecode
  have keeps : ∀ library text, current.get? library = some text →
      (current.insert (linker.convertArtifactIdToLibPath id) (platform.toChecksum
          (platform.create2FromCode sender salt code))).get? library = some text := by
    intro library text found
    rw [lookup, if_neg, found]
    rintro rfl
    simp [fresh] at found
  constructor
  · intro library text user
    exact keeps library text (deploying.kept library text user)
  · intro library text found
    rw [map_append, mem_append]
    rw [lookup] at found
    split at found
    · rename_i sameLibrary
      exact .inr (.inr (mem_singleton.mpr sameLibrary))
    · exact (deploying.exact library text found).imp_right .inl
  · apply deploying.ordered.append
    intro dep edge
    obtain ⟨_, depUnsupplied, other, file, name, otherCreation, listed, found⟩ := edge
    obtain ⟨contract, stored, created⟩ := creation
    obtain ⟨contract', stored', created'⟩ := otherCreation
    cases stored.symm.trans stored'
    cases created.symm.trans created'
    have addressed : current.get? (linker.convertArtifactIdToLibPath dep) ≠ none := by
      intro missing
      have unlinked : (original.linkAll platform (current.address? platform)).isUnlinked := by
        apply isUnlinked_linkAll_iff.mpr
        refine ⟨file, name, listed, ?_⟩
        simp [← (resolve_eq_some found).2.2, address?, missing]
      have complete := bytes?_isSome_iff.mp (isSome_of_eq_some linked)
      simp [complete] at unlinked
    have notPending : dep ∉ needed.map Prod.fst := fun pending =>
      addressed (deploying.fresh deployable pending)
    exact (mem_append.mp ((deploying.unsupplied dep).mpr depUnsupplied)).resolve_right notPending
  · simp [deploying.length]
  intro index other otherCode chosen listed
  by_cases old : index < deployed.length
  · rw [getElem?_append_left old] at chosen
    rw [getElem?_append_left (deploying.length ▸ old)] at listed
    obtain ⟨⟨bytecode, otherCreation, complete⟩, recorded⟩ :=
      deploying.deploys index other otherCode chosen listed
    exact ⟨⟨bytecode, otherCreation, linkAll_insert_of_bytes fresh complete⟩, keeps _ _ recorded⟩
  have bounded := (List.getElem?_eq_some_iff.mp chosen).1
  rw [length_append, length_singleton] at bounded
  have final : index = deployed.length := by omega
  subst index
  rw [getElem?_concat_length] at chosen
  rw [← deploying.length, getElem?_concat_length] at listed
  cases chosen
  cases listed
  refine ⟨⟨original, creation, linkAll_insert_of_bytes fresh linked⟩, ?_⟩
  rw [lookup, if_pos rfl]

theorem Deploying.deploy {index : ℕ} (found : needed[index]? = some (id, bytecode))
    (linked : bytecode.bytes? = some code) :
    Deploying platform linker libraries sender salt target
      (current.insert (linker.convertArtifactIdToLibPath id)
        (platform.toChecksum (platform.create2FromCode sender salt code)))
      ((needed.swapRemove index).map fun entry =>
        (entry.1, entry.2.link platform (linker.convertArtifactIdToLibPath id)
          (platform.create2FromCode sender salt code)))
      (codes ++ [code]) (deployed ++ [id]) := by
  have member := mem_of_getElem? found
  have fresh := deploying.fresh deployable (mem_map_of_mem member)
  have removed := swapRemove_perm found
  have ids : (deployed ++ needed.map Prod.fst).Perm
      (deployed ++ [id] ++ ((needed.swapRemove index).map fun entry =>
        (entry.1, entry.2.link platform (linker.convertArtifactIdToLibPath id)
          (platform.create2FromCode sender salt code))).map Prod.fst) := by
    rw [List.map_map, List.append_assoc]
    exact (removed.symm.map Prod.fst).append_left deployed
  refine
    { Progress.deploy deployable deploying member linked with
      nodup := ids.nodup_iff.mp deploying.nodup
      unsupplied := fun probe => ids.mem_iff.symm.trans (deploying.unsupplied probe)
      valid := ?_
      linking := ?_ }
  · intro library text written
    rw [get?_insert] at written
    split at written
    · cases written
      simp [platform.addressFromStr_toChecksum]
    · exact deploying.valid library text written
  intro entry listed
  obtain ⟨earlier, remaining, rfl⟩ := mem_map.mp listed
  obtain ⟨original, creation, same⟩ := deploying.linking earlier
    (removed.subset (mem_cons_of_mem _ remaining))
  refine ⟨original, creation, ?_⟩
  have unlinked : current.address? platform (linker.convertArtifactIdToLibPath id) = none := by
    simp [address?, fresh]
  rw [address?_insert, ← link_linkAll platform original _ unlinked, same]

end

/-- The loop deploys all the libraries, or it stops at a cycle. -/
theorem deployLibraries_outcome {fuel : ℕ} (enough : needed.length ≤ fuel)
    (deploying : Deploying platform linker libraries sender salt target
      current needed codes deployed) :
    (∃ output order, linker.deployLibraries platform sender salt fuel
        current needed codes = .ok output ∧
      LinkedByCreate2 platform linker libraries sender salt target output order) ∨
    (linker.deployLibraries platform sender salt fuel current needed codes =
        .error (.error .cyclicDependency) ∧
      ∃ id, TransGen (linker.CreationEdge platform libraries target) id id) := by
  induction fuel, needed using Loop.worklist generalizing current codes deployed with
  | nil fuel =>
    refine .inl ⟨_, deployed, by rw [deployLibraries], ?_⟩
    exact
      { deploying.toProgress with
        nodup := by simpa using deploying.nodup
        unsupplied := by simpa using deploying.unsupplied }
  | zero first others => cases enough
  | succ fuel first others ih =>
    rw [deployLibraries]
    cases search : (first :: others).findIdx? (fun entry => !entry.2.isUnlinked) with
    | none =>
      refine .inr ⟨rfl, deploying.exists_cycle deployable (cons_ne_nil first others) ?_⟩
      intro entry member
      simpa using findIdx?_eq_none_iff.mp search entry member
    | some index =>
      obtain ⟨bounded, linked, _⟩ := findIdx?_eq_some_iff_getElem.mp search
      have found := getElem?_eq_getElem bounded
      generalize (first :: others)[index] = entry at linked found
      obtain ⟨id, bytecode⟩ := entry
      rw [Bool.not_eq_true', ← bytes?_isSome_iff] at linked
      obtain ⟨code, bytes⟩ := isSome_iff_exists.mp linked
      have shorter := swapRemove_length found
      simp only [found, bind_some, bytes, map_some]
      apply ih
      · rw [length_map]
        omega
      · exact deploying.deploy deployable found bytes

theorem Deployable.neededLibraries :
    ∃ deps, linker.neededLibraries platform [target] = .ok deps := by
  cases collected : linker.neededLibraries platform [target] with
  | ok deps => exact ⟨deps, rfl⟩
  | error failure =>
    rcases neededLibraries_eq_error collected with
      ⟨_, ⟨other, member, absent⟩, _⟩ | ⟨file, name, _, missing⟩
    · have stored := deployable.stored
      simp [← mem_singleton.mp member, absent] at stored
    have present : linker.presentTargets [target] = [target] := by
      simp [presentTargets, deployable.stored]
    rw [present] at missing
    exact absurd missing (deployable.resolved file name)

end

theorem unlinkedLibrary_eq_ok {supplied : Libraries}
    (valid : supplied.Valid platform) (creation : linker.Creation id bytecode) :
    linker.unlinkedLibrary platform supplied id =
      .ok (id, bytecode.linkAll platform (supplied.address? platform)) := by
  obtain ⟨contract, stored, created⟩ := creation
  simp [unlinkedLibrary, link_succeeds stored valid, CompactContractBytecode.linkAll, created]

section

variable (deployable : Deployable platform linker libraries target)

include deployable

/-- The worklist of `link_with_create2`: the libraries that were not supplied,
linked with those that were. -/
theorem Deployable.unlinkedLibraries {ids : List (ArtifactId Version)}
    (unsupplied : ∀ id ∈ ids, linker.Unsupplied platform libraries target id) :
    ∃ entries, ids.mapM (linker.unlinkedLibrary platform
        (linker.supplied platform libraries)) = .ok entries ∧
      entries.map Prod.fst = ids ∧
      ∀ entry ∈ entries, ∃ bytecode, linker.Creation entry.1 bytecode ∧
        entry.2 = bytecode.linkAll platform
          ((linker.supplied platform libraries).address? platform) := by
  induction ids with
  | nil => exact ⟨[], rfl, rfl, by simp⟩
  | cons id ids ih =>
    obtain ⟨entries, mapped, same, linked⟩ := ih
      (fun other member => unsupplied other (mem_cons_of_mem id member))
    obtain ⟨bytecode, creation⟩ := deployable.created id (unsupplied id mem_cons_self)
    refine ⟨(id, bytecode.linkAll platform
      ((linker.supplied platform libraries).address? platform)) :: entries,
      ?_, ?_, ?_⟩
    · rw [mapM_cons_eq, unlinkedLibrary_eq_ok deployable.valid creation, mapped]
      rfl
    · rw [map_cons, same]
    · exact forall_mem_cons.mpr ⟨⟨bytecode, creation, rfl⟩, linked⟩

theorem linkWithCreate2_outcome (sender : Address) (salt : B256) :
    (∃ output order, linker.linkWithCreate2 platform libraries sender salt target = .ok output ∧
      LinkedByCreate2 platform linker libraries sender salt target output order) ∨
    (linker.linkWithCreate2 platform libraries sender salt target =
        .error (.error .cyclicDependency) ∧
      ∃ id, TransGen (linker.CreationEdge platform libraries target) id id) := by
  obtain ⟨deps, collected⟩ := deployable.neededLibraries
  obtain ⟨reachable, _⟩ := neededLibraries_eq_ok collected
  have unsupplied : ∀ id, id ∈ deps.elems.filter (fun id =>
      ((linker.supplied platform libraries).get? (linker.convertArtifactIdToLibPath id)).isNone) ↔
      linker.Unsupplied platform libraries target id := by
    intro id
    rw [mem_filter, ← BTreeSet.mem_def, reachable, isNone_iff_eq_none]
    rfl
  obtain ⟨entries, mapped, ids, linked⟩ := deployable.unlinkedLibraries
    (fun id member => (unsupplied id).mp member)
  have unfolded : linker.linkWithCreate2 platform libraries sender salt
      target = linker.deployLibraries platform sender salt entries.length
        (linker.supplied platform libraries) entries [] := by
    unfold supplied at mapped ⊢
    simp only [linkWithCreate2, collected, Except.bind, mapped]
  rw [unfolded]
  have deploying : Deploying platform linker libraries sender salt target
      (linker.supplied platform libraries) entries [] [] :=
    { kept := fun _ _ user => user
      exact := fun _ _ user => .inl user
      ordered := fun _ _ _ found => by simp at found
      length := rfl
      deploys := fun _ _ _ found => by simp at found
      nodup := by
        rw [ids]
        exact deps.nodup.filter _
      unsupplied := by
        rw [ids]
        exact unsupplied
      valid := deployable.valid
      linking := linked }
  exact deployLibraries_outcome deployable le_rfl deploying

end

theorem deployLibraries_ne_outOfFuel {fuel : ℕ} (enough : needed.length ≤ fuel) :
    linker.deployLibraries platform sender salt fuel current needed codes ≠ .error .outOfFuel := by
  induction fuel, needed using Loop.worklist generalizing current codes with
  | nil fuel => rw [deployLibraries]; exact nofun
  | zero first others => cases enough
  | succ fuel first others ih =>
    rw [deployLibraries]
    split
    · exact nofun
    rename_i index search
    have bounded := (findIdx?_eq_some_iff_getElem.mp search).1
    have shorter := swapRemove_length (getElem?_eq_getElem bounded)
    split
    · exact nofun
    apply ih
    rw [length_map]
    omega

theorem linkWithCreate2_ne_outOfFuel :
    linker.linkWithCreate2 platform libraries sender salt target ≠ .error .outOfFuel := by
  intro exhausted
  rcases bind_eq_error_iff.mp exhausted with collected | ⟨deps, _, rest⟩
  · rcases neededLibraries_eq_error collected with ⟨impossible, _⟩ | ⟨_, _, impossible, _⟩
    · cases impossible
    · cases impossible
  rcases bind_eq_error_iff.mp rest with mapped | ⟨entries, _, stopped⟩
  · obtain ⟨id, _, failed⟩ := mapM_eq_error mapped
    unfold unlinkedLibrary at failed
    split at failed
    · cases failed
    · rename_i contract _
      cases created : contract.bytecode <;> simp [created] at failed
  · exact deployLibraries_ne_outOfFuel le_rfl stopped

end

/-- A project in which `C` refers to `A` and `A` refers to `B`. -/
def chainLinker : Linker ℕ := projectLinker [("A", 1, ["B"]), ("B", 2, []), ("C", 3, ["A"])]

theorem chainLinker_deployable :
    Deployable unaryPlatform chainLinker ⟨∅⟩ (projectArtifact "C") := by
  have collected : (chainLinker.neededLibraries unaryPlatform
      [projectArtifact "C"]).toOption.isSome := by
    decide +kernel
  obtain ⟨deps, collected⟩ := isSome_iff_exists.mp collected
  rw [toOption_eq_some_iff] at collected
  have created : ∀ entry ∈ chainLinker.contracts.elems,
      entry.1.version = 0 ∧ entry.2.bytecode.isSome := by
    decide +kernel
  constructor
  · intro left leftStored right rightStored
    rw [(created left leftStored).1, (created right rightStored).1]
  · intro library text _
    rfl
  · decide +kernel
  · intro file name missing
    have present : chainLinker.presentTargets [projectArtifact "C"] = [projectArtifact "C"] := rfl
    rw [← present] at missing
    obtain ⟨_, _, failed⟩ := neededLibraries_missing_iff.mpr ⟨file, name, missing⟩
    cases failed
  intro id unsupplied
  have stored := ((neededLibraries_eq_ok collected).2 id ?_).stored
  · obtain ⟨contract, stored⟩ := isSome_iff_exists.mp stored
    obtain ⟨entry, found, rfl⟩ := map_eq_some_iff.mp stored
    have listed := mem_of_find?_eq_some found
    obtain ⟨bytecode, same⟩ := isSome_iff_exists.mp (created entry listed).2
    exact ⟨bytecode, entry.2, stored, same⟩
  · obtain ⟨target, member, path⟩ := unsupplied.1
    exact ⟨target, member, path.to_reflTransGen⟩

/-- A project in which `A` and `B` refer to each other, and `C` refers to `A`
and to a library without an artifact. -/
def brokenCycleLinker : Linker ℕ :=
  projectLinker [("A", 1, ["B"]), ("B", 2, ["A"]), ("C", 3, ["A", "D"])]

theorem brokenCycleLinker_dependsOn {id dep : String}
    (edge : (id, dep) ∈ [("A", "B"), ("B", "A"), ("C", "A")]) :
    ∃ bytecode, brokenCycleLinker.Creation (projectArtifact id) bytecode ∧
      ("src/" ++ dep, dep) ∈ bytecode.linkReferences ∧
      brokenCycleLinker.resolve unaryPlatform (projectArtifact id)
        ("src/" ++ dep) dep = some (projectArtifact dep) := by
  simp only [mem_cons, Prod.mk.injEq, not_mem_nil, or_false] at edge
  rcases edge with ⟨rfl, rfl⟩ | ⟨rfl, rfl⟩ | ⟨rfl, rfl⟩
  · exact ⟨referringBytecode 1 ["B"], ⟨_, rfl, rfl⟩, by decide, by decide +kernel⟩
  · exact ⟨referringBytecode 2 ["A"], ⟨_, rfl, rfl⟩, by decide, by decide +kernel⟩
  · exact ⟨referringBytecode 3 ["A", "D"], ⟨_, rfl, rfl⟩, by decide, by decide +kernel⟩

end Linker

end SwissledgerFoundry.Linking
