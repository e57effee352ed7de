import SwissledgerFoundry.Collections.SwapRemove
import SwissledgerFoundry.Linking.Bytecode

/-!
# The library linker

Computes addresses for the libraries that a set of artifacts refers to: from the
nonces of the sender, or with `CREATE2`.
-/

namespace SwissledgerFoundry.Linking

inductive LinkerError where
  | missingLibraryArtifact (file name : String)
  | missingTargetArtifact
  | invalidAddress (address : String)
  | cyclicDependency
deriving DecidableEq, Repr

/-- Why a call of the linker does not return a value. -/
inductive Failure where
  | error (error : LinkerError)
  | panic
  | outOfFuel
deriving DecidableEq, Repr

abbrev ArtifactContracts (Version : Type) [LinearOrder Version] :=
  BTreeSet (Prod.fst : ArtifactId Version × CompactContractBytecode → ArtifactId Version)

structure Linker (Version : Type) [LinearOrder Version] where
  root : PathBuf
  contracts : ArtifactContracts Version

structure LinkOutput where
  libraries : Libraries
  libsToDeploy : List Bytes

abbrev Deps (Version : Type) [LinearOrder Version] :=
  BTreeSet (id : ArtifactId Version → ArtifactId Version)

/-- The link references of a contract, ordered by file and name. -/
abbrev References := BTreeSet (toLex : String × String → String ×ₗ String)

namespace CompactContractBytecode

/-- The libraries referenced by the creation or the deployed bytecode. -/
def references (contract : CompactContractBytecode) : References :=
  let extend (references : References) (bytecode : CompactBytecode) :=
    bytecode.linkReferences.foldl BTreeSet.insert references
  let created := contract.bytecode.elim .empty (extend .empty)
  (contract.deployedBytecode.bind (·.bytecode)).elim created (extend created)

end CompactContractBytecode

namespace Linker

variable {Version : Type} [LinearOrder Version]

section

variable (linker : Linker Version) (id : ArtifactId Version)

def get? : Option CompactContractBytecode :=
  (linker.contracts.elems.find? (fun entry => entry.1 = id)).map Prod.snd

/-- `convert_artifact_id_to_lib_path`.  The name of an artifact is the name of
the library, or that name followed by a dot and the compiler version. -/
def convertArtifactIdToLibPath : LibPath :=
  (Libraries.stripPrefix linker.root id.source, String.ofList (id.name.toList.takeWhile (· ≠ '.')))

end

variable (platform : Platform) (linker : Linker Version)

def findArtifactIdByLibraryPath (file name : String)
    (version : Option Version) : Option (ArtifactId Version) :=
  (linker.contracts.elems.map Prod.fst).find? fun id =>
    (version.all (id.version = ·)) &&
      linker.convertArtifactIdToLibPath id = (platform.pathNew file, name)

/-- The body of the loop of `collect_dependencies`: an artifact that was not
in `deps` is added, and `collect` is called for it. -/
def visitReference (collect : ArtifactId Version → Deps Version → Except Failure (Deps Version))
    (target : ArtifactId Version) (deps : Deps Version)
    (reference : String × String) : Except Failure (Deps Version) :=
  match linker.findArtifactIdByLibraryPath platform reference.1 reference.2
    (some target.version) with
  | none => .error (.error (.missingLibraryArtifact reference.1 reference.2))
  | some id => if deps.contains id then .ok deps else collect id (deps.insert id)

/-- `collect_dependencies`: a depth first search for the libraries that
`target` refers to. -/
def collectDependencies : ℕ → ArtifactId Version → Deps Version → Except Failure (Deps Version)
  | 0, _, _ => .error .outOfFuel
  | fuel + 1, target, deps =>
    match linker.get? target with
    | none => .error (.error .missingTargetArtifact)
    | some contract =>
      contract.references.elems.foldlM (linker.visitReference platform
        (collectDependencies fuel) target) deps

/-- Collects the dependencies of all targets.  Each artifact is added at most
once, so that the number of artifacts bounds the depth of the search. -/
def neededLibraries (targets : List (ArtifactId Version)) : Except Failure (Deps Version) :=
  targets.foldlM (fun deps target =>
    linker.collectDependencies platform (linker.contracts.elems.length + 1) target deps) .empty

/-- `link`: links an artifact with the given library addresses. -/
def link (target : ArtifactId Version) (libraries : Libraries) :
    Except Failure CompactContractBytecode :=
  match linker.get? target with
  | none => .error (.error .missingTargetArtifact)
  | some contract =>
    libraries.entries.foldlM (fun contract (library, text) =>
      match platform.addressFromStr text with
      | none => .error (.error (.invalidAddress text))
      | some address => .ok (contract.link platform library address))
      contract

/-- The state of the loop that computes addresses from nonces. -/
structure NonceState (Version : Type) where
  libraries : Libraries
  libsToDeploy : List (ArtifactId Version × Address)
  nonce : UInt64

/-- The body of the loop of `link_with_nonce_or_address`. -/
def computeAddress (sender : Address) (state : NonceState Version)
    (id : ArtifactId Version) : NonceState Version :=
  let library := linker.convertArtifactIdToLibPath id
  match state.libraries.get? library with
  | some _ => state
  | none =>
    let address := platform.create sender state.nonce
    { libraries :=
        state.libraries.insert library (platform.toChecksum address)
      libsToDeploy := state.libsToDeploy ++ [(id, address)]
      nonce := state.nonce + 1 }

/-- The bytes of a linked library; a library without bytes panics. -/
def linkedBytes (libraries : Libraries) (id : ArtifactId Version) : Except Failure Bytes :=
  (linker.link platform id libraries).bind fun contract =>
    contract.getBytecodeBytes.elim (.error .panic) .ok

def linkWithNonceOrAddress (libraries : Libraries) (sender : Address) (nonce : UInt64)
    (targets : List (ArtifactId Version)) : Except Failure LinkOutput :=
  (linker.neededLibraries platform targets).bind fun needed =>
    let state := needed.elems.foldl (linker.computeAddress platform sender)
      { libraries := platform.withStrippedFilePrefixes libraries linker.root
        libsToDeploy := []
        nonce := nonce }
    (state.libsToDeploy.mapM fun entry =>
      linker.linkedBytes platform state.libraries entry.1).map
      fun libsToDeploy => { libraries := state.libraries, libsToDeploy := libsToDeploy }

/-- The loop of `link_with_create2`: computes the address of a fully linked
library and links it in all the others. -/
def deployLibraries (sender : Address) (salt : B256) :
    ℕ → Libraries → List (ArtifactId Version × CompactBytecode) →
      List Bytes → Except Failure LinkOutput
  | _, libraries, [], libsToDeploy => .ok { libraries := libraries, libsToDeploy := libsToDeploy }
  | 0, _, _ :: _, _ => .error .outOfFuel
  | fuel + 1, libraries, first :: others, libsToDeploy =>
    let neededLibraries := first :: others
    match neededLibraries.findIdx? (fun entry => !entry.2.isUnlinked) with
    | none => .error (.error .cyclicDependency)
    | some index =>
      match (neededLibraries[index]?).bind fun entry =>
        entry.2.bytes?.map fun code => (entry.1, code) with
      | none => .error .panic
      | some (id, code) =>
        let address := platform.create2FromCode sender salt code
        let library := linker.convertArtifactIdToLibPath id
        deployLibraries sender salt fuel (libraries.insert library (platform.toChecksum address))
          ((neededLibraries.swapRemove index).map fun entry =>
            (entry.1, entry.2.link platform library address))
          (libsToDeploy ++ [code])

/-- The creation bytecode of a library, linked with the given libraries;
a library that cannot be linked or has no bytecode panics. -/
def unlinkedLibrary (libraries : Libraries) (id : ArtifactId Version) :
    Except Failure (ArtifactId Version × CompactBytecode) :=
  match linker.link platform id libraries with
  | .error _ => .error .panic
  | .ok contract => contract.bytecode.elim (.error .panic) fun bytecode => .ok (id, bytecode)

def linkWithCreate2 (libraries : Libraries) (sender : Address) (salt : B256)
    (target : ArtifactId Version) : Except Failure LinkOutput :=
  let libraries := platform.withStrippedFilePrefixes libraries linker.root
  (linker.neededLibraries platform [target]).bind fun needed =>
    ((needed.elems.filter fun id =>
      (libraries.get? (linker.convertArtifactIdToLibPath id)).isNone).mapM
        (linker.unlinkedLibrary platform libraries)).bind
      fun neededLibraries =>
        linker.deployLibraries platform sender salt neededLibraries.length
          libraries neededLibraries []

end Linker

namespace Libraries

open List AList

/-- The files in their order under their stripped paths. -/
def strippedFiles (libraries : Libraries) (base : PathBuf) : Libraries where
  libs := libraries.libs.entries.foldl
    (fun libs file => libs.insert (stripPrefix base file.1) file.2) ∅

variable {libraries : Libraries} {base file : PathBuf}

/-- The libraries of a file keep their addresses when the base path is
stripped, unless another file gets the same path. -/
theorem get?_strippedFiles {libs : HashMap String String}
    (stored : libraries.libs.lookup file = some libs)
    (unique : ∀ other ∈ libraries.libs,
      stripPrefix base other = stripPrefix base file → other = file)
    (name : String) :
    (libraries.strippedFiles base).get?
      (stripPrefix base file, name) = libs.lookup name := by
  have inserted : ∀ (entries : List (Sigma fun _ : PathBuf =>
        HashMap String String)) (start : HashMap PathBuf _),
      (∀ entry ∈ entries, stripPrefix base entry.1 = stripPrefix base file → entry = ⟨file, libs⟩) →
      (start.lookup (stripPrefix base file) = some libs ∨ ⟨file, libs⟩ ∈ entries) →
      (entries.foldl (fun stripped entry =>
        stripped.insert (stripPrefix base entry.1) entry.2) start).lookup
          (stripPrefix base file) = some libs := by
    intro entries
    induction entries with
    | nil => simp
    | cons entry entries ih =>
      intro start only present
      apply ih
      · intro other member
        exact only other (mem_cons_of_mem entry member)
      rw [lookup_insert_eq]
      by_cases same : stripPrefix base file = stripPrefix base entry.1
      · rw [if_pos same, only entry mem_cons_self same.symm]
        exact .inl rfl
      rw [if_neg same]
      refine present.imp_right fun member => ?_
      exact (mem_cons.mp member).resolve_left (fun equal => same (equal ▸ rfl))
  have listed := mem_lookup_iff.mp stored
  have found := inserted libraries.libs.entries ∅ ?_ (.inr listed)
  · simp [get?, strippedFiles, found]
  rintro ⟨other, otherLibs⟩ member same
  have otherStored := mem_lookup_iff.mpr member
  have otherMember := mem_of_lookup otherStored
  cases unique other otherMember same
  cases stored.symm.trans otherStored
  rfl

theorem of_get?_strippedFiles (library : LibPath) (address : String)
    (found : (libraries.strippedFiles base).get? library = some address) :
    ∃ file, stripPrefix base file = library.1 ∧
      libraries.get? (file, library.2) = some address := by
  have inserted : ∀ entries : List (Σ _ : PathBuf, HashMap String String),
      ∀ start : HashMap PathBuf (HashMap String String), ∀ libs,
      (entries.foldl (fun stripped entry =>
        stripped.insert (stripPrefix base entry.1) entry.2) start).lookup library.1 = some libs →
      start.lookup library.1 = some libs ∨
        ∃ entry ∈ entries, stripPrefix base entry.1 = library.1 ∧ entry.2 = libs := by
    intro entries
    induction entries with
    | nil => exact fun _ _ => .inl
    | cons entry entries ih =>
      intro start libs kept
      rcases ih _ _ kept with earlier | ⟨other, member, named⟩
      · rw [lookup_insert_eq] at earlier
        split at earlier
        · exact .inr ⟨entry, mem_cons_self, Eq.symm ‹_›, Option.some.inj earlier⟩
        · exact .inl earlier
      · exact .inr ⟨other, mem_cons_of_mem _ member, named⟩
  obtain ⟨libs, stored, listed⟩ := Option.bind_eq_some_iff.mp found
  rcases inserted _ _ _ stored with absent | ⟨⟨file, _⟩, member, named, rfl⟩
  · cases absent
  · exact ⟨file, named, Option.bind_eq_some_iff.mpr ⟨_, mem_lookup_iff.mpr member, listed⟩⟩

end Libraries

/-- Paths split at slashes, and addresses written in unary. -/
def unaryPlatform : Platform where
  pathNew file := (file.toList.splitOn '/').map String.ofList
  create _ nonce := BitVec.ofNat 160 nonce.toNat
  create2FromCode _ _ code := BitVec.ofNat 160 code.length
  toChecksum address := String.ofList (List.replicate address.toNat '1')
  addressFromStr text := some (BitVec.ofNat 160 text.toList.length)
  addressFromStr_toChecksum := by
    intro address
    simp
  withStrippedFilePrefixes := Libraries.strippedFiles
  get?_stripped _ _ _ _ stored unique := Libraries.get?_strippedFiles stored unique
  of_get?_stripped _ _ := Libraries.of_get?_strippedFiles

def projectArtifact (name : String) : ArtifactId ℕ where
  path := ["out", name]
  name := name
  source := ["project", "src", name]
  version := 0
  buildId := ""
  profile := ""

/-- Bytecode that starts with a byte and refers to libraries of the
project. -/
def referringBytecode (first : UInt8) (libraries : List String) : CompactBytecode where
  object := .bytes [first] :: libraries.map (fun name => .placeholder ("src/" ++ name) name)
  linkReferences := libraries.map (fun name => ("src/" ++ name, name))
  exact := by simp

/-- A project whose artifacts have these names, first bytes and libraries. -/
def projectLinker (artifacts : List (String × UInt8 × List String)) : Linker ℕ where
  root := ["project"]
  contracts := artifacts.foldl (fun contracts artifact =>
    contracts.insert (projectArtifact artifact.1,
      { bytecode := some (referringBytecode artifact.2.1 artifact.2.2)
        deployedBytecode := none })) .empty

end SwissledgerFoundry.Linking
