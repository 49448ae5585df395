import NtfsDxe.Driver.EntryPoints
import NtfsDxe.Foundation.Sessions

/-! # The lock of the driver

One global lock is shared by all volumes. `NtfsOpenVolume` and `NtfsOpenFile` take
it with `NtfsAcquireLock`, which asserts that it is free; the functions that start
and stop the driver on a device only try to take it. The other entry points do
not use it.
-/

namespace NtfsDxe

open Foundation.Sessions

/-! ## The lock -/

/-- The states of an `EFI_LOCK`. -/
inductive LockState where
  | released
  | acquired
  deriving DecidableEq

/-- The lock and the volumes. `misused` tells whether an assertion about the lock
has failed. -/
structure LockedVolumes where
  lock : LockState
  misused : Bool
  volumes : Nat → Driver

namespace LockedVolumes

def unlocked (volumes : Nat → Driver) : LockedVolumes where
  lock := .released
  misused := false
  volumes := volumes

def acquireLock (s : LockedVolumes) : LockedVolumes :=
  { s with lock := .acquired, misused := s.misused || s.lock == .acquired }

def releaseLock (s : LockedVolumes) : LockedVolumes :=
  { s with lock := .released, misused := s.misused || s.lock == .released }

/-- `NtfsAcquireLockOrFail`: the result tells whether the lock has been taken. -/
def acquireLockOrFail (s : LockedVolumes) : LockedVolumes × Bool :=
  if s.lock = .acquired then (s, false) else ({ s with lock := .acquired }, true)

def releaseIf (s : LockedVolumes) (lockedByMe : Bool) : LockedVolumes :=
  if lockedByMe then s.releaseLock else s

def setVolume (s : LockedVolumes) (v : Nat) (d : Driver) : LockedVolumes :=
  { s with volumes := Function.update s.volumes v d }

end LockedVolumes

/-! ## The entry points -/

namespace LockedVolumes

section

variable (s : LockedVolumes) (v : Nat)

/-- `NtfsOpenVolume`, which returns with the lock when it fails. -/
def openVolume (root : Option NtfsInode) : LockedVolumes × CallStatus :=
  let s := s.acquireLock
  match (s.volumes v).openVolume root with
  | (d, r) =>
    let s := s.setVolume v d
    (if r.status = .success then s.releaseLock else s, r.status)

/-- `NtfsOpenFile`, which takes the lock after it has checked the arguments; `null` tells
whether the name or the place for the handle is missing. -/
def openFile (file : IFile) (null : Bool) (q : OpenRequest) : LockedVolumes × CallStatus :=
  if null then (s, .invalidParameter)
  else
    match (s.volumes v).openFile file q with
    | (d, r) =>
      if q.flags = none ∨ q.badAttributes then (s, r.status)
      else ((s.acquireLock.setVolume v d).releaseLock, r.status)

def abandonVolume (s : LockedVolumes) (v : Nat) (uninstalled : Bool) :
    LockedVolumes × CallStatus :=
  match (s.volumes v).abandonVolume uninstalled with
  | (d, r) =>
    if uninstalled then
      match s.acquireLockOrFail with
      | (s, lockedByMe) => ((s.setVolume v d).releaseIf lockedByMe, r.status)
    else (s, r.status)

/-- `NtfsDriverBindingStop`: `opened` tells whether the file system protocol is
installed on the device. -/
def stop (opened uninstalled : Bool) : LockedVolumes :=
  if opened then (s.abandonVolume v uninstalled).1 else s

/-- `NtfsDriverBindingStart`: `mounted` tells whether a volume is found on the
device. -/
def start (mounted : Bool) : LockedVolumes :=
  match s.acquireLockOrFail with
  | (s, lockedByMe) =>
    (if mounted then s.setVolume v Driver.mounted else s).releaseIf lockedByMe

end

end LockedVolumes

/-- The calls on the volumes; `v` is the volume and `h` a handle on it. Those that
are not listed (writing, positions, information and flushing) neither use the lock
nor make another call, and may change the volume as they like. -/
inductive LockedCall where
  | openVolume (v : Nat) (root : Option NtfsInode)
  | openFile (v h : Nat) (null : Bool) (request : OpenRequest)
  | readFile (v h : Nat) (request : ReadRequest)
  | closeFile (v h : Nat)
  | deleteFile (v h : Nat) (request : DeleteRequest)
  | unlisted (v : Nat) (change : Driver → Driver)
  | stop (v : Nat) (opened uninstalled : Bool)
  | start (v : Nat) (mounted : Bool)

namespace LockedVolumes

/-- The effect of a call; there is none if the handle is not open. -/
def call (s : LockedVolumes) : LockedCall → Option LockedVolumes
  | .openVolume v root => some (s.openVolume v root).1
  | .openFile v h null q =>
    ((s.volumes v).handles h).map fun file => (s.openFile v file null q).1
  | .readFile v h q =>
    ((s.volumes v).handles h).map fun file =>
      s.setVolume v ((s.volumes v).readFile h file q).1
  | .closeFile v h =>
    ((s.volumes v).handles h).map fun file => s.setVolume v ((s.volumes v).closeFile h file).1
  | .deleteFile v h q =>
    ((s.volumes v).handles h).map fun file =>
      s.setVolume v ((s.volumes v).deleteFile h file q).1
  | .unlisted v change => some (s.setVolume v (change (s.volumes v)))
  | .stop v opened uninstalled => some (s.stop v opened uninstalled)
  | .start v mounted => some (s.start v mounted)

/-- The lock is free, and has always been used properly. -/
structure Disciplined (s : LockedVolumes) : Prop where
  lock : s.lock = .released
  misused : s.misused = false

/-! ## One call -/

section Calls

variable {s : LockedVolumes}

section

variable (hs : s.Disciplined)
include hs

lemma Disciplined.setVolume : (s.setVolume v d).Disciplined :=
  ⟨hs.lock, hs.misused⟩

/-- What happens between taking and giving back the lock does not matter. -/
lemma Disciplined.guarded : (s.acquireLock.setVolume v d).releaseLock.Disciplined := by
  refine ⟨rfl, ?_⟩
  simp [releaseLock, LockedVolumes.setVolume, acquireLock, hs.lock, hs.misused]

lemma Disciplined.acquireLockOrFail_eq :
    s.acquireLockOrFail = ({ s with lock := .acquired }, true) := by
  rw [acquireLockOrFail, hs.lock, if_neg (by decide)]

lemma Disciplined.openFile (v : Nat) (file : IFile) (null : Bool) (q : OpenRequest) :
    (s.openFile v file null q).1.Disciplined := by
  unfold LockedVolumes.openFile
  split_ifs
  · exact hs
  · exact hs
  · exact hs.guarded

lemma Disciplined.stop (v : Nat) (opened uninstalled : Bool) :
    (s.stop v opened uninstalled).Disciplined := by
  unfold LockedVolumes.stop abandonVolume
  rw [hs.acquireLockOrFail_eq]
  split_ifs
  · refine ⟨rfl, ?_⟩
    simp [releaseIf, releaseLock, LockedVolumes.setVolume, hs.misused]
  · exact hs
  · exact hs

lemma Disciplined.start (v : Nat) (mounted : Bool) : (s.start v mounted).Disciplined := by
  unfold LockedVolumes.start
  rw [hs.acquireLockOrFail_eq]
  cases mounted with
  | true => exact ⟨rfl, by simp [releaseIf, releaseLock, LockedVolumes.setVolume, hs.misused]⟩
  | false => exact ⟨rfl, by simp [releaseIf, releaseLock, hs.misused]⟩

end

/-- The root directory is open already, or can be opened. -/
def RootFound (s : LockedVolumes) (v : Nat) (root : Option NtfsInode) : Prop :=
  (s.volumes v).root.isSome = true ∨ root.isSome = true

lemma openVolume_success_iff {d : Driver} :
    (d.openVolume root).2.status = .success ↔ d.root.isSome = true ∨ root.isSome = true := by
  rw [Driver.openVolume, Driver.openRoot]
  cases d.root with
  | some r => simp
  | none => cases root <;> simp [Driver.inodeOpen]

/-- `NtfsOpenVolume` gives the lock back if it finds the root directory. -/
lemma Disciplined.openVolume (hs : s.Disciplined) (hroot : s.RootFound v root) :
    (s.openVolume v root).1.Disciplined := by
  have hfound : ((s.volumes v).openVolume root).2.status = .success :=
    openVolume_success_iff.mpr hroot
  rw [LockedVolumes.openVolume]
  dsimp only [acquireLock]
  rw [if_pos hfound]
  exact hs.guarded

/-- Otherwise it returns with the lock taken. -/
lemma openVolume_keeps_lock (hroot : ¬ s.RootFound v root) :
    (s.openVolume v root).1 = s.acquireLock.setVolume v ((s.volumes v).openVolume root).1 := by
  have hmissing : ((s.volumes v).openVolume root).2.status ≠ .success :=
    mt openVolume_success_iff.mp hroot
  rw [LockedVolumes.openVolume]
  dsimp only [acquireLock]
  rw [if_neg hmissing]

end Calls

/-! ## Sequences of calls -/

/-- The calls that keep the discipline: all but an `NtfsOpenVolume` that does not
find the root directory. -/
def Balanced (s : LockedVolumes) : LockedCall → Prop
  | .openVolume v root => s.RootFound v root
  | _ => True

lemma Disciplined.call {s s' : LockedVolumes} (hs : s.Disciplined)
    (hcall : s.call c = some s') (hbalanced : s.Balanced c) : s'.Disciplined := by
  cases c with
  | openVolume v root =>
    cases hcall
    exact hs.openVolume hbalanced
  | openFile v h null q =>
    obtain ⟨file, _, rfl⟩ := Option.map_eq_some_iff.mp hcall
    exact hs.openFile v file null q
  | readFile v h q =>
    obtain ⟨file, _, rfl⟩ := Option.map_eq_some_iff.mp hcall
    exact hs.setVolume
  | closeFile v h =>
    obtain ⟨file, _, rfl⟩ := Option.map_eq_some_iff.mp hcall
    exact hs.setVolume
  | deleteFile v h q =>
    obtain ⟨file, _, rfl⟩ := Option.map_eq_some_iff.mp hcall
    exact hs.setVolume
  | unlisted v change =>
    cases hcall
    exact hs.setVolume
  | stop v opened uninstalled =>
    cases hcall
    exact hs.stop v opened uninstalled
  | start v mounted =>
    cases hcall
    exact hs.start v mounted

lemma not_disciplined_of_unbalanced {s s' : LockedVolumes} (hcall : s.call c = some s')
    (hbalanced : ¬ s.Balanced c) : ¬ s'.Disciplined := by
  cases c with
  | openVolume v root =>
    cases hcall
    rw [openVolume_keeps_lock hbalanced]
    rintro ⟨hlock, _⟩
    cases hlock
  | _ => exact absurd trivial hbalanced

end LockedVolumes

/-- In a sequence of calls the lock is used properly and is free after each of them
exactly when every `NtfsOpenVolume` finds the root directory of its volume. -/
theorem lock_disciplined_iff (volumes : Nat → Driver) (calls : List LockedCall) :
    Throughout LockedVolumes.call LockedVolumes.Disciplined (.unlocked volumes) calls ↔
      EachCall LockedVolumes.call LockedVolumes.Balanced (.unlocked volumes) calls := by
  apply @throughout_iff_eachCall _ _ _ _ LockedVolumes.Disciplined
  · exact fun s hs => hs
  · exact fun s c s' hs hcall hbalanced => hs.call hcall hbalanced
  · exact fun s c s' _ hcall hbalanced =>
      LockedVolumes.not_disciplined_of_unbalanced hcall hbalanced
  · exact ⟨rfl, rfl⟩

/-- On a volume whose root directory cannot be read, `NtfsOpenVolume` returns with
the lock taken, and the next call of it takes the lock again. -/
theorem openVolume_lock_kept :
    ((LockedVolumes.unlocked fun _ => Driver.mounted).openVolume 0 none).2 = .volumeCorrupted ∧
      ((LockedVolumes.unlocked fun _ => Driver.mounted).openVolume 0 none).1.lock = .acquired ∧
      (((LockedVolumes.unlocked fun _ => Driver.mounted).openVolume 0 none).1.openVolume 0
        none).1.misused = true :=
  ⟨rfl, rfl, rfl⟩

end NtfsDxe
