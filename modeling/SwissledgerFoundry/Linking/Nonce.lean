import SwissledgerFoundry.Linking.Dependencies
import SwissledgerFoundry.Linking.Linked

/-!
# Linking by nonce

The libraries that the user did not supply get the addresses of the next
contracts that the sender creates, in the order of deployment.
-/

namespace SwissledgerFoundry.Linking.Linker

open Option Except List CompactContractBytecode UInt64

variable {Version : Type} [LinearOrder Version] {platform : Platform}
  {linker : Linker Version}

/-- What the loop over the needed libraries adds: an address for each library
that had none, computed from consecutive nonces. -/
structure Computed (platform : Platform) (linker : Linker Version)
    (sender : Address) (ids : List (ArtifactId Version))
    (before after : NonceState Version)
    (added : List (ArtifactId Version × Address)) : Prop where
  libsToDeploy : after.libsToDeploy = before.libsToDeploy ++ added
  listed : ∀ entry ∈ added, entry.1 ∈ ids
  nodup : (added.map fun entry => linker.convertArtifactIdToLibPath entry.1).Nodup
  new : ∀ library, library ∈ added.map (fun entry =>
      linker.convertArtifactIdToLibPath entry.1) ↔
    (∃ id ∈ ids, linker.convertArtifactIdToLibPath id = library) ∧
      before.libraries.get? library = none
  kept : ∀ library address, before.libraries.get? library = some address →
    after.libraries.get? library = some address
  recorded : ∀ entry ∈ added, after.libraries.get?
    (linker.convertArtifactIdToLibPath entry.1) = some (platform.toChecksum entry.2)
  exact : ∀ library address, after.libraries.get? library = some address →
    before.libraries.get? library = some address ∨ library ∈ added.map (fun entry =>
        linker.convertArtifactIdToLibPath entry.1)
  nonces : ∀ (index : ℕ) entry, added[index]? = some entry →
    entry.2 = platform.create sender (before.nonce + ofNat index)

variable {id : ArtifactId Version} {sender : Address}

theorem computeAddress_of_supplied {text : String} {state : NonceState Version}
    (supplied : state.libraries.get? (linker.convertArtifactIdToLibPath id) = some text) :
    linker.computeAddress platform sender state id = state := by
  simp [computeAddress, supplied]

variable {added : List (ArtifactId Version × Address)} {after : NonceState Version}

theorem Computed.supplied {text : String} {ids : List (ArtifactId Version)}
    {before : NonceState Version}
    (supplied : before.libraries.get? (linker.convertArtifactIdToLibPath id) = some text)
    (computed : Computed platform linker sender ids before after added) :
    Computed platform linker sender (id :: ids) before after added := by
  refine { computed with listed := ?_, new := ?_ }
  · intro entry member
    exact mem_cons_of_mem id (computed.listed entry member)
  intro library
  rw [computed.new]
  constructor
  · rintro ⟨⟨other, member, same⟩, unsupplied⟩
    exact ⟨⟨other, mem_cons_of_mem id member, same⟩, unsupplied⟩
  rintro ⟨⟨other, member, same⟩, unsupplied⟩
  rcases mem_cons.mp member with rfl | member
  · simp [same, unsupplied] at supplied
  · exact ⟨⟨other, member, same⟩, unsupplied⟩

theorem Computed.unsupplied {ids : List (ArtifactId Version)} {before : NonceState Version}
    (unsupplied : before.libraries.get? (linker.convertArtifactIdToLibPath id) = none)
    (computed : Computed platform linker sender ids
      (linker.computeAddress platform sender before id) after added) :
    Computed platform linker sender (id :: ids) before after
      ((id, platform.create sender before.nonce) :: added) := by
  have stepped : linker.computeAddress platform sender before id =
      { libraries := before.libraries.insert
          (linker.convertArtifactIdToLibPath id)
          (platform.toChecksum (platform.create sender before.nonce))
        libsToDeploy := before.libsToDeploy ++ [(id, platform.create sender before.nonce)]
        nonce := before.nonce + 1 } := by
    simp [computeAddress, unsupplied]
  rw [stepped] at computed
  have lookup := fun probe => before.libraries.get?_insert
    (linker.convertArtifactIdToLibPath id) probe
    (platform.toChecksum (platform.create sender before.nonce))
  have absent : linker.convertArtifactIdToLibPath id ∉
      added.map (fun entry => linker.convertArtifactIdToLibPath entry.1) := by
    intro member
    have free := ((computed.new _).mp member).2
    simp only [lookup, if_pos] at free
    cases free
  constructor
  · simp [computed.libsToDeploy]
  · refine forall_mem_cons.mpr ⟨mem_cons_self, fun entry member => ?_⟩
    exact mem_cons_of_mem id (computed.listed entry member)
  · rw [map_cons, nodup_cons]
    exact ⟨absent, computed.nodup⟩
  · intro library
    rw [map_cons, mem_cons, computed.new, lookup]
    by_cases same : library = linker.convertArtifactIdToLibPath id
    · simp [same, unsupplied]
    · simp [same, Ne.symm same]
  · intro library address supplied
    apply computed.kept
    rw [lookup, if_neg, supplied]
    rintro rfl
    simp [unsupplied] at supplied
  · refine forall_mem_cons.mpr ⟨?_, computed.recorded⟩
    apply computed.kept
    rw [lookup, if_pos rfl]
  · intro library address found
    rw [map_cons, mem_cons]
    rcases computed.exact library address found with earlier | later
    · rw [lookup] at earlier
      split at earlier
      · exact .inr (.inl ‹_›)
      · exact .inl earlier
    · exact .inr (.inr later)
  intro index entry found
  cases index with
  | zero =>
    cases found
    simp
  | succ index =>
    rw [computed.nonces index entry found, ofNat_add,
      UInt64.add_comm (UInt64.ofNat index), ← UInt64.add_assoc]
    rfl

theorem foldl_computeAddress (platform : Platform) (linker : Linker Version) (sender : Address)
    (ids : List (ArtifactId Version)) (before : NonceState Version) :
    ∃ added, Computed platform linker sender ids before
      (ids.foldl (linker.computeAddress platform sender) before) added := by
  induction ids generalizing before with
  | nil =>
    refine ⟨[], ?_⟩
    constructor
    all_goals simp
  | cons id ids ih =>
    obtain ⟨added, computed⟩ := ih (linker.computeAddress platform sender before id)
    cases supplied : before.libraries.get? (linker.convertArtifactIdToLibPath id) with
    | some text =>
      rw [computeAddress_of_supplied supplied] at computed
      refine ⟨added, ?_⟩
      rw [foldl_cons, computeAddress_of_supplied supplied]
      exact computed.supplied supplied
    | none => exact ⟨_, computed.unsupplied supplied⟩

/-- The libraries of the user, without the project root in their paths. -/
def supplied (platform : Platform) (linker : Linker Version) (libraries : Libraries) : Libraries :=
  platform.withStrippedFilePrefixes libraries linker.root

/-- What a successful link by nonce returns.  `deployed` are the artifacts
whose bytecode is deployed, in this order; nonces are added as 64-bit
numbers.  The libraries of a file of the user are among the supplied ones
unless another file of the user has the same path after stripping. -/
structure LinkedByNonce (platform : Platform) (linker : Linker Version)
    (libraries : Libraries) (sender : Address) (nonce : UInt64)
    (targets : List (ArtifactId Version)) (output : LinkOutput)
    (deployed : List (ArtifactId Version)) : Prop where
  addressed : ∀ id file name, linker.Reachable platform targets id → linker.Refers id file name →
    ∃ address, output.libraries.get? (platform.pathNew file, name) = some address
  kept : ∀ library address, (linker.supplied platform libraries).get? library = some address →
    output.libraries.get? library = some address
  userKept : ∀ file libs, libraries.libs.lookup file = some libs →
    (∀ other ∈ libraries.libs, Libraries.stripPrefix linker.root other =
      Libraries.stripPrefix linker.root file → other = file) →
    ∀ name address, libs.lookup name = some address →
      output.libraries.get? (Libraries.stripPrefix linker.root file, name) = some address
  suppliedOnly : ∀ library address,
    (linker.supplied platform libraries).get? library = some address →
    ∃ file, Libraries.stripPrefix linker.root file = library.1 ∧
      libraries.get? (file, library.2) = some address
  exact : ∀ library address, output.libraries.get? library = some address →
    (linker.supplied platform libraries).get? library = some address ∨
      library ∈ deployed.map linker.convertArtifactIdToLibPath
  distinct : (deployed.map linker.convertArtifactIdToLibPath).Nodup
  unsupplied : ∀ library, library ∈ deployed.map linker.convertArtifactIdToLibPath ↔
    (∃ id, linker.ReachableLibrary platform targets id ∧
      linker.convertArtifactIdToLibPath id = library) ∧
    (linker.supplied platform libraries).get? library = none
  length : output.libsToDeploy.length = deployed.length
  deploys : ∀ (index : ℕ) id code, deployed[index]? = some id →
    output.libsToDeploy[index]? = some code →
    linker.ReachableLibrary platform targets id ∧
    output.libraries.get? (linker.convertArtifactIdToLibPath id) =
      some (platform.toChecksum (platform.create sender (nonce + ofNat index))) ∧
    ∃ contract bytecode, linker.get? id = some contract ∧ contract.bytecode = some bytecode ∧
      (bytecode.linkAll platform (output.libraries.address? platform)).bytes? = some code

variable {libraries : Libraries}

theorem linkedBytes_eq_ok {code : Bytes}
    (linked : linker.linkedBytes platform libraries id = .ok code) :
    ∃ contract bytecode, linker.get? id = some contract ∧ contract.bytecode = some bytecode ∧
      (bytecode.linkAll platform (libraries.address? platform)).bytes? = some code := by
  obtain ⟨linkedContract, done, extracted⟩ := bind_eq_ok_iff.mp linked
  obtain ⟨contract, stored, rfl⟩ := link_eq_ok done
  cases created : contract.bytecode with
  | none => simp [getBytecodeBytes, linkAll, created] at extracted
  | some bytecode =>
    refine ⟨contract, bytecode, stored, created, ?_⟩
    simp only [getBytecodeBytes, linkAll, created, map_some, bind_some] at extracted
    cases bytes : (bytecode.linkAll platform (libraries.address? platform)).bytes? with
    | none => simp [bytes] at extracted
    | some content =>
      rw [bytes] at extracted
      cases extracted
      rfl

variable {file name : String}

theorem linkedBytes_ne_missing : linker.linkedBytes platform libraries id ≠
      .error (.error (.missingLibraryArtifact file name)) := by
  intro failed
  rcases bind_eq_error_iff.mp failed with unlinked | ⟨contract, _, extracted⟩
  · unfold link at unlinked
    split at unlinked
    · cases unlinked
    · obtain ⟨_, ⟨library, text⟩, _, _, _, _, failed⟩ := foldlM_eq_error unlinked
      cases parsed : platform.addressFromStr text <;> simp [parsed] at failed
  cases bytes : contract.getBytecodeBytes with
  | none => simp [bytes] at extracted
  | some code => simp [bytes] at extracted

variable {targets : List (ArtifactId Version)} {nonce : UInt64}

theorem linkWithNonceOrAddress_linked {output : LinkOutput}
    (linked : linker.linkWithNonceOrAddress platform libraries sender nonce targets = .ok output) :
    ∃ deployed, LinkedByNonce platform linker libraries sender nonce targets output deployed := by
  obtain ⟨needed, collected, rest⟩ := bind_eq_ok_iff.mp linked
  obtain ⟨codes, deployable, same⟩ := map_eq_ok_iff.mp rest
  subst output
  obtain ⟨reachable, closed⟩ := neededLibraries_eq_ok collected
  obtain ⟨added, computed⟩ := foldl_computeAddress platform linker sender needed.elems
    { libraries := platform.withStrippedFilePrefixes libraries linker.root
      libsToDeploy := []
      nonce := nonce }
  generalize needed.elems.foldl (linker.computeAddress platform sender)
    { libraries := platform.withStrippedFilePrefixes libraries linker.root
      libsToDeploy := []
      nonce := nonce } = state at deployable computed ⊢
  have keys : (added.map Prod.fst).map linker.convertArtifactIdToLibPath =
      added.map (fun entry => linker.convertArtifactIdToLibPath entry.1) :=
    map_map
  rw [computed.libsToDeploy] at deployable
  refine ⟨added.map Prod.fst, ?_, computed.kept, ?_, platform.of_get?_stripped _ _,
    ?_, ?_, ?_, ?_, ?_⟩
  · intro id file name reached refers
    obtain ⟨dep, member, found⟩ := (closed id reached).resolved file name refers
    have key := (resolve_eq_some found).2.2
    cases supplied : (platform.withStrippedFilePrefixes libraries linker.root).get?
      (platform.pathNew file, name) with
    | some address => exact ⟨address, computed.kept _ _ supplied⟩
    | none =>
      have new := (computed.new (platform.pathNew file, name)).mpr ⟨⟨dep, member, key⟩, supplied⟩
      obtain ⟨entry, listed, same⟩ := mem_map.mp new
      exact ⟨_, same ▸ computed.recorded entry listed⟩
  · intro file libs stored unique name address found
    apply computed.kept
    rw [platform.get?_stripped _ _ _ _ stored unique, found]
  · rw [keys]
    exact computed.exact
  · rw [keys]
    exact computed.nodup
  · intro library
    rw [keys, computed.new]
    simp only [← BTreeSet.mem_def, reachable, supplied]
  · rw [length_map]
    exact (mapM_eq_ok_iff.mp deployable).length_eq.symm
  intro index id code chosen listed
  rw [getElem?_map, map_eq_some_iff] at chosen
  obtain ⟨entry, found, rfl⟩ := chosen
  have member := mem_of_getElem? found
  refine ⟨(reachable entry.1).mp (computed.listed entry member), ?_, ?_⟩
  · rw [computed.recorded entry member, computed.nonces index entry found]
  · exact linkedBytes_eq_ok (mapM_eq_ok_getElem? deployable found listed)

theorem linkWithNonceOrAddress_eq_missing_iff :
    linker.linkWithNonceOrAddress platform libraries sender nonce targets =
        .error (.error (.missingLibraryArtifact file name)) ↔
      linker.neededLibraries platform targets =
        .error (.error (.missingLibraryArtifact file name)) := by
  constructor
  · intro failed
    rcases bind_eq_error_iff.mp failed with collected | ⟨needed, collected, rest⟩
    · exact collected
    · obtain ⟨entry, _, unlinked⟩ := mapM_eq_error (map_eq_error_iff.mp rest)
      exact absurd unlinked linkedBytes_ne_missing
  · intro collected
    exact bind_eq_error_iff.mpr (.inl collected)

end SwissledgerFoundry.Linking.Linker
