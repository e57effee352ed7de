import SwissledgerFoundry.Linking.Linker
import SwissledgerFoundry.Collections.Except

/-!
# The dependencies of a list of targets

The search over link references returns the libraries that can be reached from
the targets, and it fails exactly when a reference that can be reached has no
artifact.
-/

namespace SwissledgerFoundry.Linking

open List Relation Except BTreeSet

variable {file name : String}

namespace CompactContractBytecode

/-- The contract refers to a library in its creation or in its deployed
bytecode. -/
def Refers (contract : CompactContractBytecode) (file name : String) : Prop :=
  (∃ bytecode, contract.bytecode = some bytecode ∧ (file, name) ∈ bytecode.linkReferences) ∨
    ∃ deployed bytecode, contract.deployedBytecode = some deployed ∧
      deployed.bytecode = some bytecode ∧
      (file, name) ∈ bytecode.linkReferences

theorem mem_references {contract : CompactContractBytecode} :
    (file, name) ∈ contract.references ↔ contract.Refers file name := by
  have injective : Function.Injective (toLex : String × String → String ×ₗ String) :=
    toLex.injective
  have empty : ∀ reference, reference ∉ (empty : References) := notMem_empty
  obtain ⟨created, deployed⟩ := contract
  cases created with
  | none =>
    rcases deployed with _ | ⟨_ | deployed⟩
    · simp [references, Refers, empty]
    · simp [references, Refers, empty]
    · simp [references, Refers, empty, mem_foldl_insert injective]
  | some created =>
    rcases deployed with _ | ⟨_ | deployed⟩
    · simp [references, Refers, empty, mem_foldl_insert injective]
    · simp [references, Refers, empty, mem_foldl_insert injective]
    · simp [references, Refers, empty, mem_foldl_insert injective, or_comm]

end CompactContractBytecode

namespace Linker

variable {Version : Type} [LinearOrder Version]

/-- The artifact `id` refers to a library. -/
def Refers (linker : Linker Version) (id : ArtifactId Version) (file name : String) : Prop :=
  ∃ contract, linker.get? id = some contract ∧ contract.Refers file name

section

variable (platform : Platform) (linker : Linker Version)

/-- The artifact that a reference of `id` stands for: the first one of the
same version with this file and name. -/
def resolve (id : ArtifactId Version) (file name : String) : Option (ArtifactId Version) :=
  linker.findArtifactIdByLibraryPath platform file name (some id.version)

def DependsOn (id dep : ArtifactId Version) : Prop :=
  ∃ file name, linker.Refers id file name ∧ linker.resolve platform id file name = some dep

variable (targets : List (ArtifactId Version))

/-- The artifact is a target or can be reached from one through link
references. -/
def Reachable (id : ArtifactId Version) : Prop :=
  ∃ target ∈ targets, ReflTransGen (linker.DependsOn platform) target id

/-- The artifact is a library that a target or a reachable library refers
to. -/
def ReachableLibrary (id : ArtifactId Version) : Prop :=
  ∃ target ∈ targets, TransGen (linker.DependsOn platform) target id

/-- A reachable reference without an artifact of the same version. -/
def MissingReference (file name : String) : Prop :=
  ∃ id, linker.Reachable platform targets id ∧ linker.Refers id file name ∧
    linker.resolve platform id file name = none

end

variable {linker : Linker Version} {id : ArtifactId Version}

theorem get?_isSome_iff : (linker.get? id).isSome ↔ ∃ entry ∈ linker.contracts, entry.1 = id := by
  simp [get?, mem_def]

variable {platform : Platform}

theorem resolve_eq_some {dep : ArtifactId Version}
    (found : linker.resolve platform id file name = some dep) :
    (linker.get? dep).isSome ∧ dep.version = id.version ∧
      linker.convertArtifactIdToLibPath dep = (platform.pathNew file, name) := by
  have stored := mem_of_find?_eq_some found
  have matched := find?_some found
  simp only [Option.all_some, Bool.and_eq_true, decide_eq_true_eq] at matched
  refine ⟨?_, matched⟩
  rw [get?_isSome_iff]
  obtain ⟨entry, member, same⟩ := mem_map.mp stored
  exact ⟨entry, member, same⟩

/-- Every reference of `id` stands for a member of `deps`. -/
structure Closed (platform : Platform) (linker : Linker Version)
    (deps : Deps Version) (id : ArtifactId Version) : Prop where
  stored : (linker.get? id).isSome
  resolved : ∀ file name, linker.Refers id file name →
    ∃ dep ∈ deps, linker.resolve platform id file name = some dep

/-- What a search adds to the set it starts from: libraries that it reaches,
each with all its dependencies. -/
structure Explored (platform : Platform) (linker : Linker Version)
    (reach : ArtifactId Version → Prop) (before after : Deps Version) :
    Prop where
  grows : ∀ id ∈ before, id ∈ after
  reached : ∀ id ∈ after, id ∈ before ∨ reach id
  closed : ∀ id ∈ after, id ∉ before → linker.Closed platform after id

variable {after : Deps Version}

theorem Closed.mono {before : Deps Version} (closed : linker.Closed platform before id)
    (grows : ∀ id ∈ before, id ∈ after) :
    linker.Closed platform after id := by
  refine ⟨closed.stored, ?_⟩
  intro file name refers
  obtain ⟨dep, member, found⟩ := closed.resolved file name refers
  exact ⟨dep, grows dep member, found⟩

variable {reach : ArtifactId Version → Prop}

theorem Explored.refl (deps : Deps Version) : linker.Explored platform reach deps deps := by
  constructor
  · intro id member
    exact member
  · intro id member
    exact .inl member
  · intro id member absent
    exact absurd member absent

theorem Explored.trans {first second third : Deps Version}
    (earlier : linker.Explored platform reach first second)
    (later : linker.Explored platform reach second third) :
    linker.Explored platform reach first third := by
  constructor
  · intro id member
    exact later.grows id (earlier.grows id member)
  · intro id member
    rcases later.reached id member with old | new
    · exact earlier.reached id old
    · exact .inr new
  intro id member absent
  by_cases old : id ∈ second
  · exact (earlier.closed id old absent).mono later.grows
  · exact later.closed id member old

theorem Explored.weaken {before : Deps Version} {wider : ArtifactId Version → Prop}
    (explored : linker.Explored platform reach before after)
    (widens : ∀ id, reach id → wider id) :
    linker.Explored platform wider before after := by
  refine ⟨explored.grows, ?_, explored.closed⟩
  intro id member
  exact (explored.reached id member).imp_right (widens id)

variable {deps : Deps Version}

theorem mem_insert_deps {probe : ArtifactId Version} :
    probe ∈ deps.insert id ↔ probe = id ∨ probe ∈ deps :=
  mem_insert_of_injective Function.injective_id

theorem contains_deps : deps.contains id ↔ id ∈ deps := by
  rw [BTreeSet.contains_iff]
  constructor
  · intro present
    obtain ⟨other, member, same⟩ := present
    exact same ▸ member
  · intro member
    exact ⟨id, member, rfl⟩

section

variable {platform : Platform} {linker : Linker Version}
  {collect : ArtifactId Version → Deps Version → Except Failure (Deps Version)}
  {target : ArtifactId Version}

/-- A search that succeeds adds what its target depends on. -/
def Explores (platform : Platform) (linker : Linker Version)
    (collect : ArtifactId Version → Deps Version → Except Failure (Deps Version)) : Prop :=
  ∀ id deps after, collect id deps = .ok after →
    linker.Explored platform (TransGen (linker.DependsOn platform) id) deps after ∧
    linker.Closed platform after id

theorem visitReference_explores (refers : linker.Refers target file name)
    (explores : linker.Explores platform collect)
    (visited : linker.visitReference platform collect target deps (file, name) = .ok after) :
    linker.Explored platform (TransGen (linker.DependsOn platform) target) deps after ∧
    ∃ dep ∈ after, linker.resolve platform target file name = some dep := by
  unfold visitReference at visited
  split at visited
  · cases visited
  rename_i id found
  have dependsOn : linker.DependsOn platform target id := ⟨file, name, refers, found⟩
  split at visited
  · rename_i present
    cases visited
    exact ⟨.refl _, id, contains_deps.mp present, found⟩
  obtain ⟨explored, closed⟩ := explores _ _ _ visited
  have added : id ∈ after := explored.grows id (mem_insert_deps.mpr (.inl rfl))
  refine ⟨⟨?_, ?_, ?_⟩, id, added, found⟩
  · intro probe member
    exact explored.grows probe (mem_insert_deps.mpr (.inr member))
  · intro probe member
    rcases explored.reached probe member with old | new
    · rcases mem_insert_deps.mp old with same | earlier
      · exact .inr (same ▸ .single dependsOn)
      · exact .inl earlier
    · exact .inr (.head dependsOn new)
  intro probe member absent
  by_cases same : probe = id
  · exact same ▸ closed
  apply explored.closed probe member
  intro old
  rcases mem_insert_deps.mp old with same' | earlier
  · exact same same'
  · exact absent earlier

theorem visitReferences_explore {references : List (String × String)}
    (refers : ∀ reference ∈ references, linker.Refers target reference.1 reference.2)
    (explores : linker.Explores platform collect)
    (visited : references.foldlM (linker.visitReference platform collect target) deps = .ok after) :
    linker.Explored platform (TransGen (linker.DependsOn platform) target) deps after ∧
    ∀ reference ∈ references, ∃ dep ∈ after,
      linker.resolve platform target reference.1 reference.2 = some dep := by
  induction references generalizing deps with
  | nil =>
    cases visited
    exact ⟨.refl _, fun _ member => absurd member not_mem_nil⟩
  | cons reference references ih =>
    rw [foldlM_cons_eq, bind_eq_ok_iff] at visited
    obtain ⟨next, first, rest⟩ := visited
    obtain ⟨explored, dep, member, found⟩ := visitReference_explores
      (refers reference mem_cons_self) explores first
    obtain ⟨later, resolved⟩ := ih (fun other member => refers other (mem_cons_of_mem _ member))
      rest
    refine ⟨explored.trans later, forall_mem_cons.mpr ⟨?_, resolved⟩⟩
    exact ⟨dep, later.grows dep member, found⟩

theorem refers_of_mem_references {contract : CompactContractBytecode}
    (stored : linker.get? target = some contract) :
    ∀ reference ∈ contract.references.elems, linker.Refers target reference.1 reference.2 := by
  intro reference member
  exact ⟨contract, stored, CompactContractBytecode.mem_references.mp member⟩

variable {fuel : ℕ}

/-- A search that succeeds adds what the target depends on. -/
theorem collectDependencies_explores
    (collected : linker.collectDependencies platform fuel target deps = .ok after) :
    linker.Explored platform (TransGen (linker.DependsOn platform) target) deps after ∧
    linker.Closed platform after target := by
  induction fuel generalizing target deps after with
  | zero => cases collected
  | succ fuel ih =>
    rw [collectDependencies] at collected
    cases stored : linker.get? target with
    | none => simp [stored] at collected
    | some contract =>
      rw [stored] at collected
      obtain ⟨explored, resolved⟩ := visitReferences_explore (refers_of_mem_references stored)
        (fun _ _ _ collected => ih collected) collected
      refine ⟨explored, by rw [stored]; rfl, ?_⟩
      intro file name refers
      obtain ⟨other, same, refers⟩ := refers
      cases stored.symm.trans same
      exact resolved (file, name) (CompactContractBytecode.mem_references.mpr refers)

/-- The number of artifacts outside `deps`. -/
def unseen (linker : Linker Version) (deps : Deps Version) : ℕ :=
  (linker.contracts.elems.filter (fun entry => !deps.contains entry.1)).length

theorem unseen_le (linker : Linker Version) (grows : ∀ id ∈ deps, id ∈ after) :
    linker.unseen after ≤ linker.unseen deps := by
  apply Sublist.length_le
  apply monotone_filter_right
  intro entry outside
  simp only [Bool.not_eq_true'] at outside ⊢
  rw [← Bool.not_eq_true, contains_deps] at outside ⊢
  exact fun member => outside (grows entry.1 member)

theorem unseen_insert_lt {deps : Deps Version}
    (stored : (linker.get? id).isSome) (absent : id ∉ deps) :
    linker.unseen (deps.insert id) < linker.unseen deps := by
  obtain ⟨entry, member, same⟩ := get?_isSome_iff.mp stored
  have refined : linker.contracts.elems.filter (fun entry => !(deps.insert id).contains entry.1) =
      (linker.contracts.elems.filter (fun entry => !deps.contains entry.1)).filter
          (fun entry => !(deps.insert id).contains entry.1) := by
    rw [filter_filter]
    apply filter_congr
    intro other _
    by_cases present : deps.contains other.1
    · have kept : (deps.insert id).contains other.1 :=
        contains_deps.mpr (mem_insert_deps.mpr (.inr (contains_deps.mp present)))
      simp [kept]
    · simp [present]
  unfold unseen
  rw [refined, length_filter_lt_length_iff_exists]
  refine ⟨entry, mem_filter.mpr ⟨member, ?_⟩, ?_⟩
  · rw [Bool.not_eq_true', ← Bool.not_eq_true, contains_deps, same]
    exact absent
  · have added : id ∈ deps.insert id := mem_insert_deps.mpr (.inl rfl)
    simp [same, contains_deps.mpr added]

/-- Why a search from `target` fails; `exhausted` says when it runs out of
fuel. -/
def SearchFails (platform : Platform) (linker : Linker Version)
    (exhausted : Prop) (target : ArtifactId Version) (failure : Failure) :
    Prop :=
  (failure = .outOfFuel ∧ exhausted) ∨
  (failure = .error .missingTargetArtifact ∧ linker.get? target = none) ∨
  ∃ file name, failure = .error (.missingLibraryArtifact file name) ∧
    linker.MissingReference platform [target] file name

variable {targets : List (ArtifactId Version)}

theorem MissingReference.of_reachable {others : List (ArtifactId Version)}
    (missing : linker.MissingReference platform targets file name)
    (reaches : ∀ target ∈ targets, linker.Reachable platform others target) :
    linker.MissingReference platform others file name := by
  obtain ⟨id, ⟨target, member, path⟩, refers, absent⟩ := missing
  obtain ⟨other, listed, before⟩ := reaches target member
  exact ⟨id, ⟨other, listed, before.trans path⟩, refers, absent⟩

variable {failure : Failure}

theorem visitReference_fails (refers : linker.Refers target file name)
    (fails : ∀ id deps, collect id deps = .error failure →
      linker.SearchFails platform (fuel ≤ linker.unseen deps) id failure)
    (visited : linker.visitReference platform collect target deps (file, name) = .error failure) :
    linker.SearchFails platform (fuel + 1 ≤ linker.unseen deps) target
      failure := by
  unfold visitReference at visited
  split at visited
  · rename_i absent
    cases visited
    refine .inr (.inr ⟨file, name, rfl, target, ?_, refers, absent⟩)
    exact ⟨target, mem_singleton_self target, .refl⟩
  rename_i id found
  obtain ⟨stored, _⟩ := resolve_eq_some found
  split at visited
  · cases visited
  rename_i absent
  rw [contains_deps] at absent
  rcases fails _ _ visited with ⟨rfl, short⟩ | ⟨_, missing⟩ | ⟨file', name', rfl, missing⟩
  · have fewer := unseen_insert_lt stored absent
    exact .inl ⟨rfl, by omega⟩
  · simp [missing] at stored
  refine .inr (.inr ⟨file', name', rfl, missing.of_reachable ?_⟩)
  intro other member
  rw [mem_singleton.mp member]
  exact ⟨target, mem_singleton_self target, .single ⟨file, name, refers, found⟩⟩

/-- A search fails because the target or a reachable library is missing, or
because its fuel does not cover the artifacts outside `deps`. -/
theorem collectDependencies_fails
    (collected : linker.collectDependencies platform fuel target deps = .error failure) :
    linker.SearchFails platform (fuel ≤ linker.unseen deps) target failure := by
  induction fuel generalizing target deps with
  | zero =>
    cases collected
    exact .inl ⟨rfl, Nat.zero_le _⟩
  | succ fuel ih =>
    rw [collectDependencies] at collected
    cases stored : linker.get? target with
    | none =>
      rw [stored] at collected
      cases collected
      exact .inr (.inl ⟨rfl, stored⟩)
    | some contract =>
      rw [stored] at collected
      have refers := refers_of_mem_references stored
      obtain ⟨before, reference, after, next, split, earlier, failed⟩ := foldlM_eq_error collected
      obtain ⟨explored, _⟩ := visitReferences_explore
        (fun other member => refers other (split ▸ mem_append_left _ member))
        (fun _ _ _ => collectDependencies_explores) earlier
      have fewer := unseen_le linker explored.grows
      rcases visitReference_fails (refers reference (split ▸ mem_append_right _ mem_cons_self))
        (fun _ _ collected => ih collected) failed with ⟨rfl, short⟩ | missing
      · exact .inl ⟨rfl, by omega⟩
      · exact .inr missing

theorem neededLibraries_explore (collected : targets.foldlM (fun deps target =>
      linker.collectDependencies platform fuel target deps) deps = .ok after) :
    linker.Explored platform (linker.ReachableLibrary platform targets) deps after ∧
    ∀ target ∈ targets, linker.Closed platform after target := by
  induction targets generalizing deps with
  | nil =>
    cases collected
    exact ⟨.refl _, fun _ member => absurd member not_mem_nil⟩
  | cons target targets ih =>
    rw [foldlM_cons_eq, bind_eq_ok_iff] at collected
    obtain ⟨next, first, rest⟩ := collected
    obtain ⟨explored, closed⟩ := collectDependencies_explores first
    obtain ⟨later, others⟩ := ih rest
    constructor
    · apply Explored.trans
      · apply explored.weaken
        intro id path
        exact ⟨target, mem_cons_self, path⟩
      · apply later.weaken
        rintro id ⟨other, member, path⟩
        exact ⟨other, mem_cons_of_mem target member, path⟩
    · exact forall_mem_cons.mpr ⟨closed.mono later.grows, others⟩

/-- The set that the search returns is closed, and it is the set of reachable
libraries. -/
theorem neededLibraries_eq_ok {needed : Deps Version}
    (collected : linker.neededLibraries platform targets = .ok needed) :
    (∀ id, id ∈ needed ↔ linker.ReachableLibrary platform targets id) ∧
    ∀ id, linker.Reachable platform targets id → linker.Closed platform needed id := by
  obtain ⟨explored, closed⟩ := neededLibraries_explore collected
  have complete : ∀ {target id}, target ∈ targets →
      TransGen (linker.DependsOn platform) target id → id ∈ needed := by
    intro target id member path
    induction path with
    | single dependsOn =>
      obtain ⟨file, name, refers, found⟩ := dependsOn
      obtain ⟨dep, added, same⟩ := (closed target member).resolved file name refers
      cases found.symm.trans same
      exact added
    | tail _ dependsOn added =>
      obtain ⟨file, name, refers, found⟩ := dependsOn
      obtain ⟨dep, added, same⟩ := (explored.closed _ added
        (notMem_empty _)).resolved file name refers
      cases found.symm.trans same
      exact added
  constructor
  · intro id
    constructor
    · intro member
      exact (explored.reached id member).resolve_left (notMem_empty id)
    · rintro ⟨target, member, path⟩
      exact complete member path
  rintro id ⟨target, member, path⟩
  rcases reflTransGen_iff_eq_or_transGen.mp path with same | path
  · exact same ▸ closed target member
  · exact explored.closed id (complete member path) (notMem_empty id)

/-- The targets up to the first one that is not an artifact. -/
def presentTargets (linker : Linker Version)
    (targets : List (ArtifactId Version)) : List (ArtifactId Version) :=
  targets.takeWhile (fun target => (linker.get? target).isSome)

theorem MissingReference.isSome {target : ArtifactId Version}
    (missing : linker.MissingReference platform [target] file name) :
    (linker.get? target).isSome := by
  obtain ⟨id, ⟨other, member, path⟩, ⟨contract, stored, _⟩, _⟩ := missing
  rw [mem_singleton.mp member] at path
  rcases path.cases_head with same | ⟨dep, dependsOn, _⟩
  · simp [same, stored]
  · obtain ⟨_, _, ⟨contract, stored, _⟩, _⟩ := dependsOn
    simp [stored]

theorem presentTargets_append {before after : List (ArtifactId Version)}
    (present : ∀ target ∈ before, (linker.get? target).isSome) :
    linker.presentTargets (before ++ after) = before ++ linker.presentTargets after :=
  takeWhile_append_of_pos present

/-- The search fails at the first target that is not an artifact, if no
reference that is reachable from the targets before it is missing. -/
theorem neededLibraries_eq_error
    (collected : linker.neededLibraries platform targets = .error failure) :
    (failure = .error .missingTargetArtifact ∧ (∃ target ∈ targets, linker.get? target = none) ∧
      ∀ file name, ¬ linker.MissingReference platform (linker.presentTargets targets) file name) ∨
    ∃ file name, failure = .error (.missingLibraryArtifact file name) ∧
      linker.MissingReference platform (linker.presentTargets targets) file name := by
  obtain ⟨before, target, after, deps, split, earlier, failed⟩ := foldlM_eq_error collected
  have closed := (neededLibraries_eq_ok earlier).2
  have present : ∀ target ∈ before, (linker.get? target).isSome := by
    intro other member
    exact (closed other ⟨other, member, .refl⟩).stored
  rcases collectDependencies_fails failed with ⟨_, short⟩ |
    ⟨rfl, absent⟩ | ⟨file, name, rfl, missing⟩
  · have bounded : linker.unseen deps ≤ linker.contracts.elems.length := length_filter_le _ _
    omega
  · refine .inl ⟨rfl, ⟨target, by simp [split], absent⟩, ?_⟩
    rw [split, presentTargets_append present]
    intro file name missing
    have nothing : linker.presentTargets (target :: after) = [] := by simp [presentTargets, absent]
    rw [nothing, append_nil] at missing
    obtain ⟨id, reachable, refers, unresolved⟩ := missing
    obtain ⟨dep, _, found⟩ := (closed id reachable).resolved file name refers
    simp [unresolved] at found
  refine .inr ⟨file, name, rfl, missing.of_reachable ?_⟩
  intro other member
  rw [mem_singleton.mp member]
  refine ⟨target, ?_, .refl⟩
  rw [split, presentTargets_append present]
  simp [presentTargets, missing.isSome]

/-- The search reports a missing library exactly when a reference that is
reachable from the present targets has no artifact. -/
theorem neededLibraries_missing_iff : (∃ file name, linker.neededLibraries platform targets =
      .error (.error (.missingLibraryArtifact file name))) ↔
    ∃ file name, linker.MissingReference platform (linker.presentTargets targets) file name := by
  constructor
  · rintro ⟨file, name, collected⟩
    rcases neededLibraries_eq_error collected with ⟨impossible, _⟩ | ⟨_, _, _, missing⟩
    · cases impossible
    · exact ⟨_, _, missing⟩
  rintro ⟨file, name, missing⟩
  cases collected : linker.neededLibraries platform targets with
  | ok needed =>
    obtain ⟨id, ⟨target, member, path⟩, refers, unresolved⟩ := missing
    have listed := (List.takeWhile_prefix _).subset member
    obtain ⟨dep, _, found⟩ := ((neededLibraries_eq_ok collected).2 id
      ⟨target, listed, path⟩).resolved file name refers
    simp [unresolved] at found
  | error failure =>
    rcases neededLibraries_eq_error collected with ⟨_, _, none⟩ | ⟨file', name', rfl, _⟩
    · exact absurd missing (none file name)
    · exact ⟨file', name', rfl⟩

end

end Linker

end SwissledgerFoundry.Linking
