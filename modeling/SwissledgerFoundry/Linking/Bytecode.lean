import Mathlib.Data.Prod.Lex
import Mathlib.Data.String.Basic
import SwissledgerFoundry.Collections.BTreeSet
import SwissledgerFoundry.Collections.HashMap
import SwissledgerFoundry.Primitives

/-!
# Artifacts with unlinked bytecode

A bytecode object is a sequence of fixed bytes and of placeholders for library
addresses.  Its link references name exactly the libraries that have a
placeholder.
-/

namespace SwissledgerFoundry.Linking

/-- A path as the list of its components, which is how paths are compared. -/
abbrev PathBuf := List String

/-- A library as the linker keys it: its path without the project root, and
its name. -/
abbrev LibPath := PathBuf × String

structure ArtifactId (Version : Type) where
  path : PathBuf
  name : String
  source : PathBuf
  version : Version
  buildId : String
  profile : String
deriving DecidableEq, Repr

/-- Artifact ids are ordered field by field. -/
instance {Version : Type} [LinearOrder Version] : LinearOrder (ArtifactId Version) :=
  LinearOrder.lift' (fun id => toLex (id.path, toLex (id.name, toLex (id.source,
      toLex (id.version, toLex (id.buildId, id.profile))))))
    (by
      rintro ⟨⟩ ⟨⟩ same
      simpa using same)

/-- Library addresses by file and name, as text. -/
structure Libraries where
  libs : HashMap PathBuf (HashMap String String)

namespace Libraries

section

variable (libraries : Libraries)

def get? (library : LibPath) : Option String :=
  (libraries.libs.lookup library.1).bind (·.lookup library.2)

def insert (library : LibPath) (address : String) : Libraries where
  libs := libraries.libs.insert library.1
    (((libraries.libs.lookup library.1).getD ∅).insert library.2 address)

def entries : List (LibPath × String) :=
  libraries.libs.entries.flatMap fun file => file.2.entries.map fun lib => ((file.1, lib.1), lib.2)

end

/-- `path.strip_prefix(base).unwrap_or(path)`. -/
def stripPrefix (base path : PathBuf) : PathBuf := (path.dropPrefix? base).getD path

end Libraries

/-- What the linker uses of paths, addresses and supplied libraries. -/
structure Platform where
  /-- The components of a path that is given as text. -/
  pathNew : String → PathBuf
  create : Address → UInt64 → Address
  create2FromCode : Address → B256 → Bytes → Address
  toChecksum : Address → String
  addressFromStr : String → Option Address
  addressFromStr_toChecksum : ∀ address, addressFromStr (toChecksum address) = some address
  /-- Makes the paths of the files relative to a base. -/
  withStrippedFilePrefixes : Libraries → PathBuf → Libraries
  /-- A file keeps its libraries unless another one gets the same path. -/
  get?_stripped : ∀ (libraries : Libraries) base file libs,
    libraries.libs.lookup file = some libs →
    (∀ other ∈ libraries.libs, Libraries.stripPrefix base other =
      Libraries.stripPrefix base file → other = file) →
    ∀ name, (withStrippedFilePrefixes libraries base).get? (Libraries.stripPrefix base file, name) =
      libs.lookup name
  of_get?_stripped : ∀ libraries base library address,
    (withStrippedFilePrefixes libraries base).get? library = some address →
    ∃ file, Libraries.stripPrefix base file = library.1 ∧
      libraries.get? (file, library.2) = some address

inductive Chunk where
  | bytes (content : Bytes)
  | placeholder (file name : String)
deriving DecidableEq, Repr

namespace Chunk

/-- The library whose address belongs in the place of this part. -/
def library? (platform : Platform) : Chunk → Option LibPath
  | .bytes _ => none
  | .placeholder file name => some (platform.pathNew file, name)

def link (platform : Platform) (library : LibPath) (address : Address) (chunk : Chunk) : Chunk :=
  if chunk.library? platform = some library then
    .bytes (addressBytes address)
  else chunk

def content? : Chunk → Option Bytes
  | .bytes content => some content
  | .placeholder _ _ => none

end Chunk

/-- Bytecode with its link references, which are the libraries that still have
a placeholder in it. -/
@[ext] structure CompactBytecode where
  object : List Chunk
  linkReferences : List (String × String)
  exact : ∀ file name, (file, name) ∈ linkReferences ↔ Chunk.placeholder file name ∈ object

namespace CompactBytecode

/-- `link`: puts an address in the place of the placeholders of a library. -/
def link (platform : Platform) (library : LibPath) (address : Address)
    (bytecode : CompactBytecode) : CompactBytecode where
  object := bytecode.object.map (Chunk.link platform library address)
  linkReferences := bytecode.linkReferences.filter fun reference =>
    (platform.pathNew reference.1, reference.2) ≠ library
  exact := by
    intro file name
    rw [List.mem_filter, bytecode.exact, List.mem_map]
    constructor
    · rintro ⟨member, other⟩
      refine ⟨_, member, ?_⟩
      simpa [Chunk.link, Chunk.library?] using other
    rintro ⟨chunk, member, linked⟩
    rw [Chunk.link] at linked
    split at linked
    · cases linked
    rename_i other
    subst chunk
    exact ⟨member, by simpa [Chunk.library?] using other⟩

def isUnlinked (bytecode : CompactBytecode) : Bool :=
  bytecode.object.any fun chunk => chunk.content?.isNone

def bytes? (bytecode : CompactBytecode) : Option Bytes :=
  (bytecode.object.mapM Chunk.content?).map List.flatten

end CompactBytecode

structure CompactDeployedBytecode where
  bytecode : Option CompactBytecode

structure CompactContractBytecode where
  bytecode : Option CompactBytecode
  deployedBytecode : Option CompactDeployedBytecode

namespace CompactContractBytecode

/-- The body of the loop of `Linker::link`: links a library in the creation
and in the deployed bytecode. -/
def link (platform : Platform) (library : LibPath) (address : Address)
    (contract : CompactContractBytecode) : CompactContractBytecode where
  bytecode := contract.bytecode.map (·.link platform library address)
  deployedBytecode := contract.deployedBytecode.map fun deployed =>
    { bytecode := deployed.bytecode.map (·.link platform library address) }

def getBytecodeBytes (contract : CompactContractBytecode) : Option Bytes :=
  contract.bytecode.bind (·.bytes?)

end CompactContractBytecode

end SwissledgerFoundry.Linking
