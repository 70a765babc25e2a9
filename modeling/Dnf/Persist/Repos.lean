import Mathlib.Data.Finset.Lattice.Basic
import Mathlib.Data.Finset.Basic

/-!
# Repositories, from configuration to the record of expired ones

A repository is read from the configuration, switched on and off by the command line, marked as expired if `expired_repos.json` lists it, loaded by `fill_sack` and, at the end, listed again if it is still expired. What downloading does is left open: a download fails, is not needed, or succeeds, and then the sack may still refuse the result.
-/

namespace Dnf.Persist

structure RepoConf where
  id : String
  enabled : Bool := true
  skipIfUnavailable : Bool := false

/-- `metadata` stands for an object that is there once `load` has returned, `expired` for the flag that libdnf keeps in memory. -/
structure Repo extends RepoConf where
  metadata : Bool := false
  expired : Bool := false

def Repo.expire (r : Repo) : Repo := { r with expired := true }

/-- The flag is set, or the cached metadata has aged. -/
def Repo.isExpired (aged : String → Bool) (r : Repo) : Bool := r.expired || aged r.id

inductive Operation
  | enable
  | disable
  deriving DecidableEq

def Repo.switch (r : Repo) (operation : Operation) : Repo := { r with enabled := operation == .enable }

/-- `MultiCallList`: the repositories of the dictionary whose id the key matches. -/
def onMatching (key : String → Bool) (f : Repo → Repo) (repos : List Repo) : List Repo := repos.map fun r => if key r.id then f r else r

/-! ### `Cli._configure_repos` -/

/-- The loop over `opts.repos_ed`, and whether it came to its end: in a strict configuration an unknown repository is an error. -/
def applyReposEd (strict : Bool) : List ((String → Bool) × Operation) → List Repo → List Repo × Bool
  | [], repos => (repos, true)
  | (key, operation) :: rest, repos =>
      if !(repos.any fun r => key r.id) && (strict && operation == .enable) then (repos, false)
      else applyReposEd strict rest (onMatching key (·.switch operation) repos)

def getExpiredRepos (fails : Bool) (record : Finset String) : Option (Finset String) := if fails then none else some record

def expireRecorded (expiredRepos : Option (Finset String)) (repos : List Repo) : List Repo :=
  match expiredRepos with
  | none => onMatching (fun _ => true) Repo.expire repos
  | some ids => onMatching (fun id => decide (id ∈ ids)) Repo.expire repos

structure Opts where
  repos : List RepoConf
  reposEd : List ((String → Bool) × Operation) := []
  strict : Bool := true
  cacheonly : Bool := false
  recordUnreadable : Bool := false

def configureRepos (opts : Opts) (record : Finset String) : List Repo × Bool :=
  match applyReposEd opts.strict opts.reposEd (opts.repos.map fun conf => { conf with }) with
  | (repos, false) => (repos, false)
  | (repos, true) => (expireRecorded (getExpiredRepos opts.recordUnreadable record) repos, true)

/-! ### `Base.fill_sack` -/

/-- What becomes of `load` of a repository; where it returns, `sackLoads` says what the sack makes of it. -/
inductive Fetch
  | fails
  | cached (sackLoads : Bool)
  | downloaded (sackLoads : Bool)

structure Loaded where
  repo : Repo
  downloaded : Bool
  repoError : Bool

def addRepoToSack (r : Repo) : Fetch → Loaded
  | .fails => ⟨r, false, true⟩
  | .cached sackLoads => ⟨{ r with metadata := true }, false, !sackLoads⟩
  | .downloaded sackLoads => ⟨{ r with metadata := true, expired := false }, true, !sackLoads⟩

def Loaded.ids (loaded : Loaded) : Finset String := if loaded.downloaded then {loaded.repo.id} else ∅

/-- The loop of `fill_sack` over the enabled repositories, with the ids of those it has refreshed. It ends at the first error that is not to be skipped. -/
def loadRepos (fetch : String → Fetch) : List Repo → List Repo × Finset String
  | [] => ([], ∅)
  | r :: rest =>
      if r.enabled then
        let loaded := addRepoToSack r (fetch r.id)
        if loaded.repoError then
          if r.skipIfUnavailable then ((loaded.repo.expire.switch .disable) :: (loadRepos fetch rest).1, loaded.ids ∪ (loadRepos fetch rest).2)
          else (loaded.repo.expire :: rest, loaded.ids)
        else (loaded.repo :: (loadRepos fetch rest).1, loaded.ids ∪ (loadRepos fetch rest).2)
      else (r :: (loadRepos fetch rest).1, (loadRepos fetch rest).2)

/-! ### The base object -/

/-- `configured` says that `_configure_repos` has returned. -/
structure Base where
  repos : List Repo
  expiredToAdd : Finset String := ∅
  cacheonly : Bool := false
  configured : Bool := true

def Base.configure (opts : Opts) (record : Finset String) : Base :=
  { repos := (configureRepos opts record).1, cacheonly := opts.cacheonly, configured := (configureRepos opts record).2 }

/-- `Cli._process_demands`, up to the call of `fill_sack`. -/
def Base.processDemands (cacheonly freshestMetadata : Bool) (b : Base) : Base :=
  if cacheonly || b.cacheonly then { b with cacheonly := true }
  else if freshestMetadata then { b with repos := b.repos.map fun r => if r.enabled then r.expire else r }
  else b

def Base.fillSack (loadAvailableRepos : Bool) (fetch : String → Fetch) (b : Base) : Base × Finset String :=
  if loadAvailableRepos then ({ b with repos := (loadRepos fetch b.repos).1 }, (loadRepos fetch b.repos).2)
  else ({ b with repos := onMatching (fun _ => true) (·.switch .disable) b.repos }, ∅)

def Base.expired (aged : String → Bool) (b : Base) : Finset String :=
  ((b.repos.filter fun r => r.enabled && (r.metadata && r.isExpired aged)).map fun r => r.id).toFinset

/-- `_store_persistent_data`, as far as `expired_repos.json` goes: the base after it, and what is written. -/
def Base.storePersistentData (aged : String → Bool) (saveFails : Bool) (b : Base) : Base × Option (Finset String) :=
  if b.cacheonly then (b, none)
  else
    let expiredToAdd := b.expiredToAdd ∪ b.expired aged
    ({ b with expiredToAdd := expiredToAdd }, if saveFails then none else some expiredToAdd)

end Dnf.Persist
