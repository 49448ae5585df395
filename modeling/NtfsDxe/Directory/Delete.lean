import NtfsDxe.Cluster.Taken
import NtfsDxe.Foundation.Prog
import NtfsDxe.Unistr.Equal

/-! # Deleting a name of a file

`ntfs_delete` searches the `FILE_NAME` attributes of a file for the one with a given name in
a given directory, removes it from the index of the directory and from the file, and counts
one link less. For a name in the WIN32 or DOS namespace the DOS name goes first and the
WIN32 name next. A file without a link left loses its clusters and its mft records.
-/

namespace NtfsDxe

open Foundation Prog

/-! ## Files and directories -/

/-- `FILE_NAME_TYPE_FLAGS`. -/
inductive FileNameType where
  | posix
  | win32
  | dos
  | win32AndDos
  deriving DecidableEq

/-- A `FILE_NAME` attribute. `holder` is the extent record that holds it, if it is not in the
base record. -/
structure FileName where
  parent : Nat
  name : Name
  nameType : FileNameType
  holder : Option Nat
  deriving DecidableEq

/-- Whether the value of an attribute lies in its record. The runs of one that does not are
those of its mapping pairs, if these can be decompressed. -/
inductive Residence where
  | resident
  | nonResident (rl : Option (List RunlistElement))
  deriving DecidableEq

/-- An attribute that is neither a `FILE_NAME` nor the attribute list. -/
structure OtherAttr where
  holder : Option Nat
  residence : Residence
  deriving DecidableEq

/-- What `ntfs_delete` reads of an open file: the fields of its base record, its attributes
and the extent records attached to it. `emptyRoot` tells whether the `$INDEX_ROOT` has the
size of an empty one. -/
structure LinkedFile where
  mftNo : Nat
  linkCount : Nat
  isDirectory : Bool
  emptyRoot : Bool
  possibleSymlink : Bool
  names : List FileName
  attributeList : Option Residence
  others : List OtherAttr
  extents : List Nat

/-- An entry of a directory. `reparse` is the flag `FILE_ATTR_REPARSE_POINT`. -/
structure IndexedName where
  name : Name
  file : Nat
  reparse : Bool
  deriving DecidableEq

/-- What writes that have failed leave of a directory, although the removal from its index
returns `STATUS_OK`: the successor that `ntfs_index_rm_node` has copied up stays in its leaf as
well, and an entry that was taken out of a node is not added again. -/
structure IndexDamage where
  doubled : List IndexedName
  missing : List IndexedName

/-- The entries of the directories, the clusters and mft records whose bits have been cleared
so far, the open file, how the coming requests to memory and device end, and the damage that the
coming removals from an index do without an error. The last three fields are a trace: the
entries that are there once more and that are lost by now, and the clusters of an attribute list
that have been cleared. -/
structure DeleteState where
  entries : Nat → List IndexedName
  clearedClusters : List Nat
  clearedRecords : List Nat
  ni : LinkedFile
  io : List Bool
  damage : List IndexDamage
  doubled : List IndexedName
  missing : List IndexedName
  listCleared : List Nat

/-- Why `ntfs_delete` returns -1. -/
inductive DeleteError where
  | invalid
  | noEntry
  | notEmpty
  | notSupported
  | storage
  deriving DecidableEq

/-- The upcase table of the volume, and whether its names are case sensitive. -/
structure NameRules where
  upcase : List UInt16
  caseSensitive : Bool

abbrev DeleteM := Prog DeleteState DeleteError

/-! ## Requests -/

def DeleteState.answered (s : DeleteState) : DeleteState := { s with io := s.io.tail }

def DeleteState.setFile (s : DeleteState) (ni : LinkedFile) : DeleteState := { s with ni := ni }

@[simp] lemma DeleteState.setFile_entries (s : DeleteState) {ni : LinkedFile} :
    (s.setFile ni).entries = s.entries := rfl

@[simp] lemma DeleteState.setFile_ni (s : DeleteState) (ni : LinkedFile) :
    (s.setFile ni).ni = ni := rfl

def deleteRequest : DeleteM Unit := fun s =>
  (if s.io.head? = some false then .error .storage else .ok (), s.answered)

def isRefused : Except DeleteError Unit → Bool
  | .ok _ => false
  | .error _ => true

/-- `ntfs_cluster_free_from_rl`. -/
def freeFromRl : List RunlistElement → DeleteM Unit
  | [] => pure ()
  | e :: rest =>
    if e.length = 0 then pure ()
    else if 0 ≤ e.lcn then do
      deleteRequest
      modify fun s => { s with clearedClusters := s.clearedClusters ++ runLcns e }
      freeFromRl rest
    else freeFromRl rest

/-- `ntfs_mft_record_free`. The inode of an extent is detached from the file. -/
def releaseRecord (mftNo : Nat) : DeleteM Unit := do
  deleteRequest
  modify fun s => { s.setFile { s.ni with extents := s.ni.extents.erase mftNo } with
    clearedRecords := s.clearedRecords ++ [mftNo] }

/-! ## Removing an attribute -/

/-- Whether no attribute is left in a record. The attribute list is in the base record. -/
def LinkedFile.isEmptyRecord (ni : LinkedFile) (holder : Option Nat) : Bool :=
  ni.names.all (·.holder ≠ holder) && ni.others.all (·.holder ≠ holder) &&
    (holder.isSome || ni.attributeList.isNone)

def freeIfEmpty (holder : Option Nat) : DeleteM Unit := do
  let ni ← reads DeleteState.ni
  if ni.isEmptyRecord holder then releaseRecord (holder.getD ni.mftNo) else pure ()

def LinkedFile.attrlistNeed (ni : LinkedFile) : Bool :=
  ni.names.any (·.holder.isSome) || ni.others.any (·.holder.isSome)

def eraseAttributeList : DeleteM Unit := do
  deleteRequest
  modify fun s => s.setFile { s.ni with attributeList := none }
  freeIfEmpty none

def dropResidence : Option Residence → DeleteM Unit
  | none => pure ()
  | some .resident => eraseAttributeList
  | some (.nonResident none) => pure ()
  | some (.nonResident (some rl)) => do
    let before ← reads DeleteState.clearedClusters
    -- Clusters that could not be freed are only reported: "Leaking clusters!"
    let _ ← attempt (freeFromRl rl)
    modify fun s =>
      { s with listCleared := s.listCleared ++ s.clearedClusters.drop before.length }
    eraseAttributeList

/-- The end of `ntfs_attr_record_rm`, for an attribute list that is no longer needed. Every
error is passed over: "Succeed anyway." -/
def dropAttributeList : DeleteM Unit := do
  let _ ← attempt (do
    deleteRequest
    let ni ← reads DeleteState.ni
    dropResidence ni.attributeList)
  pure ()

/-- `ntfs_attrlist_entry_rm`, for a file with an attribute list. -/
def attrlistEntryRm : DeleteM Unit := do
  let ni ← reads DeleteState.ni
  if ni.attributeList.isSome then deleteRequest else pure ()

def dropUnneededList : DeleteM Unit := do
  let ni ← reads DeleteState.ni
  if ni.attributeList.isSome && !ni.attrlistNeed then dropAttributeList else pure ()

/-- `ntfs_attr_record_rm` for a `FILE_NAME`. -/
def fileNameRecordRm (fn : FileName) : DeleteM Unit := do
  deleteRequest
  modify fun s => s.setFile { s.ni with names := s.ni.names.erase fn }
  attrlistEntryRm
  freeIfEmpty fn.holder
  dropUnneededList

/-! ## The search -/

section

variable (rules : NameRules)

structure NameSearch where
  lookingForDosName : Bool
  lookingForWin32Name : Bool
  caseSensitiveMatch : Bool

def firstOfType (type : FileNameType) (names : List FileName) : Option FileName :=
  names.find? (·.nameType == type)

/-- Whether an attribute has the name that is searched, in the directory. -/
def matchesName (caseSensitiveMatch : Bool) (dir : Nat) (name : Name) (fn : FileName) : Bool :=
  fn.parent == dir &&
    namesAreEqual rules.upcase
      (if caseSensitiveMatch || (fn.nameType == .posix && rules.caseSensitive) then .caseSensitive
        else .ignoreCase)
      fn.name name

/-- The loop over the `FILE_NAME` attributes. A match in the WIN32 namespace starts it again
for the DOS name. -/
def searchPass (dir : Nat) (name : Name) (names : List FileName) (q : NameSearch) :
    NameSearch × Option FileName :=
  if q.lookingForDosName then (q, firstOfType .dos names)
  else if q.lookingForWin32Name then (q, firstOfType .win32 names)
  else
    match names.find? (matchesName rules q.caseSensitiveMatch dir name) with
    | none => (q, none)
    | some fn =>
      if fn.nameType = .win32 then
        ({ q with lookingForDosName := true }, firstOfType .dos names)
      else ({ q with lookingForDosName := fn.nameType == .dos }, some fn)

/-- A case sensitive pass without a match is followed by one that ignores the case. -/
def searchAgain (dir : Nat) (name : Name) (names : List FileName)
    (found : NameSearch × Option FileName) : NameSearch × Option FileName :=
  if found.2.isNone && found.1.caseSensitiveMatch then
    searchPass rules dir name names { found.1 with caseSensitiveMatch := false }
  else found

/-- A search that has ended without a match is an error. -/
def foundName : NameSearch × Option FileName → DeleteM (NameSearch × FileName)
  | (_, none) => fail .noEntry
  | (q, some fn) => do
    -- `ntfs_attr_name_get` may leave an error behind
    deleteRequest
    pure (q, fn)

/-- The label `search`. -/
def searchFileName (dir : Nat) (name : Name) (q : NameSearch) :
    DeleteM (NameSearch × FileName) := do
  deleteRequest
  let ni ← reads DeleteState.ni
  foundName (searchAgain rules dir name ni.names (searchPass rules dir name ni.names q))

/-! ## Removing a name -/

/-- `ntfs_check_unlinkable_dir`, with `ntfs_check_empty_dir`. -/
def checkUnlinkableDir (fn : FileName) : DeleteM Unit := do
  let ni ← reads DeleteState.ni
  if ni.isDirectory then do
    deleteRequest
    if !ni.emptyRoot && (ni.linkCount == 1 || (ni.linkCount == 2 && fn.nameType == .dos)) then
      fail .notEmpty
    else pure ()
  else pure ()

/-- The entry that `ntfs_index_lookup` finds for a name. -/
def isKey (name : Name) (e : IndexedName) : Bool :=
  namesFullCollate rules.upcase .caseSensitive name e.name == .eq

/-- The entry with a name goes from the index of a directory. -/
def DeleteState.eraseEntry (s : DeleteState) (dir : Nat) (name : Name) : DeleteState :=
  let left := (s.entries dir).eraseP (isKey rules name)
  let damage := s.damage.headD ⟨[], []⟩
  let doubled := damage.doubled.filter (· ∈ left)
  { s with
    entries := Function.update s.entries dir (left.diff damage.missing ++ doubled)
    damage := s.damage.tail
    doubled := s.doubled ++ doubled
    missing := s.missing ++ left.bagInter damage.missing }

def removeEntry (dir : Nat) (fn : FileName) : Option IndexedName → DeleteM Unit
  | none => fail .noEntry
  | some e => do
    let ni ← reads DeleteState.ni
    if e.reparse && !ni.possibleSymlink then fail .notSupported
    else do
      deleteRequest
      modify fun s => s.eraseEntry rules dir fn.name

/-- `ntfs_index_remove`, on the entries that the index holds: the rounds that only rebuild
the tree leave them as they are. -/
def indexRemove (dir : Nat) (fn : FileName) : DeleteM Unit := do
  deleteRequest
  let entries ← reads fun s => s.entries dir
  removeEntry rules dir fn (entries.find? (isKey rules fn.name))

def lessLinks (linkCount : Nat) : Nat := (linkCount + 65535) % 65536

def dropLink : DeleteM Unit :=
  modify fun s => s.setFile { s.ni with linkCount := lessLinks s.ni.linkCount }

/-- Remove the attribute and count one link less. The last name stays in the record of a file
without an attribute list, and no other search follows it: `actx->base_ntfs_ino` is set as soon as
a search goes through an attribute list. -/
def dropName (found : NameSearch × FileName) : DeleteM NameSearch := do
  let ni ← reads DeleteState.ni
  if ni.linkCount = 1 ∧ ni.attributeList = none then do
    dropLink
    pure { found.1 with lookingForDosName := false }
  else do
    fileNameRecordRm found.2
    dropLink
    pure found.1

def removeName (dir : Nat) (found : NameSearch × FileName) : DeleteM NameSearch := do
  checkUnlinkableDir found.2
  indexRemove rules dir found.2
  dropName found

/-- The search and removal of the names. The search for the WIN32 name cannot set
`looking_for_dos_name` again. -/
def unlinkNames (dir : Nat) (name : Name) : DeleteM Unit := do
  let found ← searchFileName rules dir name ⟨false, false, true⟩
  let q ← removeName rules dir found
  if q.lookingForDosName then do
    let found ← searchFileName rules dir name
      { q with lookingForDosName := false, lookingForWin32Name := true }
    let _ ← removeName rules dir found
    pure ()
  else pure ()

end

/-! ## Freeing the file -/

/-- The clusters of one attribute in the walk over all of them, with the error remembered so
far. -/
def freeResidence (err : Bool) : Residence → DeleteM Bool
  | .resident => pure err
  | .nonResident none => pure true
  | .nonResident (some rl) => do
    let freed ← attempt (freeFromRl rl)
    pure (err || isRefused freed)

def freeResidences : List Residence → Bool → DeleteM Bool
  | [], err => pure err
  | r :: rest, err => do
    let err ← freeResidence err r
    freeResidences rest err

def freeRecords : List Nat → Bool → DeleteM Bool
  | [], err => pure err
  | mftNo :: rest, err => do
    let freed ← attempt (releaseRecord mftNo)
    freeRecords rest (err || isRefused freed)

def LinkedFile.residences (ni : LinkedFile) : List Residence :=
  ni.attributeList.toList ++ ni.others.map OtherAttr.residence

/-- The end of `ntfs_delete` for a file without links; the result tells whether an error has
been remembered. -/
def releaseFile : DeleteM Bool := do
  let reparse ← attempt deleteRequest
  let objectId ← attempt deleteRequest
  let ni ← reads DeleteState.ni
  let err ← freeResidences ni.residences (isRefused reparse || isRefused objectId)
  let walked ← attempt deleteRequest
  -- the extents from the last one back, then the base record
  freeRecords (ni.extents.reverse ++ [ni.mftNo]) (err || isRefused walked)

section

variable (rules : NameRules)

/-- `ntfs_delete` up to the label `out`. -/
def deleteFile (dir : Nat) (name : Name) : DeleteM Bool :=
  if name = [] then fail .invalid
  else do
    unlinkNames rules dir name
    let ni ← reads DeleteState.ni
    if ni.linkCount = 0 then releaseFile else pure false

/-- `ntfs_inode_close` of the file. A freed one is closed already. -/
def closeFile : Except DeleteError Bool → DeleteM Unit
  | .error _ => deleteRequest
  | .ok _ => do
    let ni ← reads DeleteState.ni
    if ni.linkCount = 0 then pure () else deleteRequest

/-- The result of `ntfs_delete` after both inodes have been closed. -/
def deleteResult : Except DeleteError Bool → Bool → DeleteM Unit
  | .error e, _ => fail e
  | .ok err, closeErr => if err || closeErr then fail .storage else pure ()

/-- The label `out`. -/
def closeInodes (result : Except DeleteError Bool) : DeleteM Unit := do
  let closedDir ← attempt deleteRequest
  let closed ← attempt (closeFile result)
  deleteResult result (isRefused closedDir || isRefused closed)

def ntfsDelete (dir : Nat) (name : Name) : DeleteM Unit := do
  let result ← attempt (deleteFile rules dir name)
  closeInodes result

end

end NtfsDxe
