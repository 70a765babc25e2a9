import Mathlib.Data.List.Basic
import Dnf.Persist.Repos

/-!
# `makecache`

`update_cache` asks each enabled repository when its cached metadata expires and marks those that are due. The answer depends on an attribute that only `load` sets: `_metadata_expire_in` loads the cache into the object of libdnf and then looks at the attribute, which is still unset. So a repository that nobody has loaded has no cached metadata for it and is marked.
-/

namespace Dnf.Persist.Makecache

/-- Cached metadata, by `getExpiresIn` and by whether it has aged. -/
structure Cache where
  expiresIn : Int
  aged : Bool
  deriving DecidableEq

/-- `cacheLoaded` says that the object of libdnf holds the cache, and `marked` that `update_cache` has called `expire`. -/
structure CachedRepo extends Repo where
  metadataExpire : Int
  cache : Option Cache
  cacheLoaded : Bool := false
  maxMirrorTries : Option Nat := none
  marked : Bool := false

def CachedRepo.expire (r : CachedRepo) : CachedRepo := { r with toRepo := r.toRepo.expire, marked := true }

/-- What the commands and the machine say. `onAcPower` is unknown where there is no power supply to ask. -/
structure Conf where
  metadataTimerSync : Int
  onMeteredConnection : Bool
  onAcPower : Option Bool
  sinceLastMakecache : Option Int

/-- libdnf's `loadCache`, which says whether there is a cache. -/
def CachedRepo.loadCache (r : CachedRepo) : CachedRepo × Bool :=
  match r.cache with
  | some _ => ({ r with cacheLoaded := true }, true)
  | none => (r, false)

def CachedRepo.getExpiresIn (r : CachedRepo) : Int := (r.cache.map Cache.expiresIn).getD 0

def CachedRepo.isExpired (r : CachedRepo) : Bool := r.toRepo.isExpired fun _ => r.cache.any Cache.aged

/-- The number of seconds is `None` for metadata that never expires. -/
def CachedRepo.metadataExpireIn (r : CachedRepo) : CachedRepo × Bool × Option Int :=
  let r := if !r.metadata then r.loadCache.1 else r
  if r.metadata then
    if r.metadataExpire = -1 then (r, true, none)
    else (r, true, some (if r.isExpired then min 0 r.getExpiresIn else r.getExpiresIn))
  else (r, false, some 0)

/-- The loop of `update_cache`. -/
def CachedRepo.refresh (timer : Bool) (period : Int) (r : CachedRepo) : CachedRepo :=
  match r.metadataExpireIn with
  | (r, _, none) => r
  | (r, isCache, some expiresIn) =>
      if !isCache || expiresIn ≤ 0 then r.expire
      else if timer && expiresIn < period then r.expire
      else r

/-- The exits of the timer. -/
def timerRefused (conf : Conf) : Bool :=
  conf.onMeteredConnection || conf.onAcPower = some false || conf.metadataTimerSync ≤ 0 ||
    conf.sinceLastMakecache.any (· < conf.metadataTimerSync)

structure Updated where
  repos : List CachedRepo
  resetLastMakecache : Bool
  synced : Bool

/-- The call gets past its early exits. -/
def getsPast (conf : Conf) (timer : Bool) (repos : List CachedRepo) : Bool :=
  !(timer && timerRefused conf) && repos.any (·.enabled)

/-- `update_cache`, up to the synchronisation of the repositories it has marked. -/
def updateCache (conf : Conf) (timer : Bool) (repos : List CachedRepo) : Updated :=
  if timer && timerRefused conf then ⟨repos, false, false⟩
  else
    let repos := if timer then repos.map fun r => { r with maxMirrorTries := some 1 } else repos
    if !(repos.any (·.enabled)) then ⟨repos, false, false⟩
    else ⟨repos.map fun r => if r.enabled then r.refresh timer conf.metadataTimerSync else r, timer, true⟩

/-! ### What is due -/

/-- There is no cached metadata, or it does not last for ever and has expired or is about to. -/
def CachedRepo.due (timer : Bool) (period : Int) (r : CachedRepo) : Bool :=
  match r.cache with
  | none => true
  | some cache => r.metadataExpire ≠ -1 && (r.expired || cache.aged || cache.expiresIn ≤ 0 || (timer && cache.expiresIn < period))

/-- Past the early exits the marks are those of the enabled repositories that are due. -/
def MarksDue (conf : Conf) (timer : Bool) (repos : List CachedRepo) : Prop :=
  getsPast conf timer repos = true → (updateCache conf timer repos).repos.map CachedRepo.marked =
    repos.map fun r => r.enabled && r.due timer conf.metadataTimerSync

/-- The repositories of a process that has loaded none. -/
def Fresh (repos : List CachedRepo) : Prop := ∀ r ∈ repos, r.metadata = false ∧ r.marked = false

/-! ### What is marked -/

theorem loadCache_metadata (r : CachedRepo) : r.loadCache.1.metadata = r.metadata := by
  rw [CachedRepo.loadCache]
  split <;> rfl

theorem metadataExpireIn_of_metadata {r : CachedRepo} (hmetadata : r.metadata = true) : r.metadataExpireIn =
    if r.metadataExpire = -1 then (r, true, none) else (r, true, some (if r.isExpired then min 0 r.getExpiresIn else r.getExpiresIn)) := by
  simp only [CachedRepo.metadataExpireIn, hmetadata, Bool.not_true, Bool.false_eq_true, if_false, if_true]

/-- To have the cache in libdnf's object is not enough. -/
theorem metadataExpireIn_of_fresh {r : CachedRepo} (hmetadata : r.metadata = false) : r.metadataExpireIn = (r.loadCache.1, false, some 0) := by
  simp only [CachedRepo.metadataExpireIn, hmetadata, Bool.not_false, if_true, loadCache_metadata, Bool.false_eq_true, if_false]

/-- A repository that was loaded is marked if it is due, and one that was not is marked in any case. -/
theorem refresh_marked {r : CachedRepo} (hcached : r.metadata = true → r.cache ≠ none) (hunmarked : r.marked = false) (timer : Bool) (period : Int) :
    (r.refresh timer period).marked = (!r.metadata || r.due timer period) := by
  rw [CachedRepo.refresh]
  cases hmetadata : r.metadata with
  | false =>
      rw [metadataExpireIn_of_fresh hmetadata]
      rfl
  | true =>
      obtain ⟨cache, hcache⟩ := Option.ne_none_iff_exists'.mp (hcached hmetadata)
      rw [metadataExpireIn_of_metadata hmetadata]
      by_cases hnever : r.metadataExpire = -1
      · rw [if_pos hnever]
        simp [CachedRepo.due, hcache, hnever, hunmarked]
      · rw [if_neg hnever]
        have hexpired : r.isExpired = (r.expired || cache.aged) := by rw [CachedRepo.isExpired, Repo.isExpired, hcache]; rfl
        have hexpiresIn : r.getExpiresIn = cache.expiresIn := by rw [CachedRepo.getExpiresIn, hcache]; rfl
        simp only [CachedRepo.due, hcache, hexpired, hexpiresIn, ne_eq, hnever, not_false_eq_true, decide_true, Bool.true_and, Bool.not_true, Bool.false_or]
        cases hflags : r.expired || cache.aged with
        | true => simp [CachedRepo.expire]
        | false =>
            by_cases hpast : cache.expiresIn ≤ 0
            · simp [hpast, CachedRepo.expire]
            · by_cases hsoon : (timer && cache.expiresIn < period) = true
              · simp [hpast, hsoon, CachedRepo.expire]
              · simp [hpast, hsoon, hunmarked]

theorem refresh_marked_of_fresh {r : CachedRepo} (hfresh : r.metadata = false ∧ r.marked = false) (timer : Bool) (period : Int) :
    (if r.enabled then r.refresh timer period else r).marked = r.enabled := by
  cases henabled : r.enabled with
  | false => exact hfresh.2
  | true =>
      rw [if_pos rfl, refresh_marked (fun h => absurd h (by rw [hfresh.1]; decide)) hfresh.2, hfresh.1]
      rfl

/-- A fresh process marks all that is enabled. -/
theorem updateCache_marked {conf : Conf} {timer : Bool} {repos : List CachedRepo} (hpast : getsPast conf timer repos = true) (hfresh : Fresh repos) :
    (updateCache conf timer repos).repos.map CachedRepo.marked = repos.map fun r => r.enabled := by
  rw [getsPast, Bool.and_eq_true, Bool.not_eq_true'] at hpast
  cases timer with
  | false =>
      rw [updateCache, hpast.1]
      simp only [Bool.false_eq_true, if_false, hpast.2, Bool.not_true, List.map_map]
      exact List.map_congr_left fun r hr => refresh_marked_of_fresh (hfresh r hr) false conf.metadataTimerSync
  | true =>
      have hany : (repos.map fun r => { r with maxMirrorTries := some 1 }).any (·.enabled) = true := by
        rw [List.any_map]
        exact hpast.2
      rw [updateCache, hpast.1]
      simp only [Bool.false_eq_true, if_false, if_true, hany, Bool.not_true, List.map_map]
      exact List.map_congr_left fun r hr =>
        refresh_marked_of_fresh (r := { r with maxMirrorTries := some 1 }) (hfresh r hr) true conf.metadataTimerSync

/-- So it marks what is due exactly if all that is enabled is due. -/
theorem updateCache_marksDue_iff (conf : Conf) (timer : Bool) (repos : List CachedRepo) (hfresh : Fresh repos) :
    MarksDue conf timer repos ↔
      (getsPast conf timer repos = true → ∀ r ∈ repos, r.enabled = true → r.due timer conf.metadataTimerSync = true) := by
  refine forall_congr' fun hpast => ?_
  rw [updateCache_marked hpast hfresh, List.map_inj_left]
  refine forall₂_congr fun r _ => ?_
  cases r.enabled <;> simp

/-- The cache of `main` lasts for an hour, that of `updates` for two minutes. -/
def twoRepos : List CachedRepo :=
  [{ id := "main", metadataExpire := 172800, cache := some ⟨3600, false⟩ }, { id := "updates", metadataExpire := 172800, cache := some ⟨120, false⟩ }]

def plugged : Conf where
  metadataTimerSync := 600
  onMeteredConnection := false
  onAcPower := some true
  sinceLastMakecache := none

theorem twoRepos_fresh : Fresh twoRepos := by
  unfold Fresh
  decide

theorem updateCache_marksDue_iff_twoRepos : MarksDue plugged true twoRepos ↔
    (getsPast plugged true twoRepos = true → ∀ r ∈ twoRepos, r.enabled = true → r.due true plugged.metadataTimerSync = true) :=
  updateCache_marksDue_iff plugged true twoRepos twoRepos_fresh

/-- The timer marks both, and the other mode, where none is due, does so too. -/
theorem twoRepos_not_marksDue : Fresh twoRepos ∧ ¬ MarksDue plugged true twoRepos ∧ ¬ MarksDue plugged false twoRepos := by
  refine ⟨twoRepos_fresh, ?_, ?_⟩
  · rw [MarksDue]
    decide
  · rw [MarksDue]
    decide

end Dnf.Persist.Makecache
