import EmailWatcher.Library.Script
import Mathlib.Logic.Function.Basic

-- How a changed configuration takes the place of the old one on Windows, and how a publication that
-- was cut short is brought to an end.
namespace Config

section Disk

abbrev Bytes := List UInt8

-- The names in the directory of the configuration. A publication draws a token for the names of its
-- candidate and of its backup.
inductive Name
  | target
  | marker
  | staging
  | candidate (token : String)
  | backup    (token : String)
  deriving DecidableEq, Repr

-- `_windows_replacement_identity`, of a file that is not written to any more
structure Identity where
  inode : Nat
  size  : Nat
  deriving DecidableEq, Repr

-- A file that is not `safe` is none that a snapshot is taken of: a link, or no regular file.
structure File where
  inode   : Nat
  safe    : Bool
  content : Bytes
  deriving DecidableEq, Repr

structure Descriptor where
  identity : Identity
  revision : String
  deriving DecidableEq, Repr

-- The identity is known once the candidate has been written.
structure CandidateDescriptor where
  size     : Nat
  revision : String
  identity : Option Identity
  deriving DecidableEq, Repr

structure Marker where
  candidateToken : String
  backupToken    : String
  expected       : Descriptor
  candidate      : CandidateDescriptor
  deriving DecidableEq, Repr

-- What has been asked for, and what the others have done. No program reads it.
structure Story where
  -- the file that the last publication was to replace, and the bytes it was to put there
  old     : File
  new     : Bytes
  -- the file that another program has put at the target, unless a publication was made from it
  outside : Option File
  deriving DecidableEq, Repr

structure Disk where
  files : Name → Option File
  next  : Nat
  story : Story

-- The digest of a configuration, and the spelling of a marker as JSON.
class Codec where
  revision          : Bytes → String
  markerBytes       : Marker → Bytes
  parseMarker       : Bytes → Option Marker
  parse_markerBytes : ∀ m, parseMarker (markerBytes m) = some m

inductive Failure
  -- `_UnsafeConfigPath`
  | unsafePath
  -- `FileNotFoundError`
  | missing
  -- `ConfigAdmissionStaleError`
  | stale
  -- `_PostReplaceDurabilityError`
  | postReplace
  -- any other `OSError`
  | os
  deriving DecidableEq, Repr

inductive Disposition
  | none
  | aborted
  | committed
  | manualTarget
  deriving DecidableEq, Repr

end Disk

open Script

abbrev Program := Script Disk Failure

section Descriptors

variable [Codec]

def File.identity (f : File) : Identity where
  inode := f.inode
  size  := f.content.length

-- `_windows_publication_descriptor`
def File.descriptor (f : File) : Descriptor where
  identity := f.identity
  revision := Codec.revision f.content

-- `_windows_publication_matches`
def publicationMatches (snapshot : Option File) (expected : Descriptor) : Bool :=
  snapshot.any (·.descriptor = expected)

-- `_windows_candidate_descriptor`
def candidateDescriptor (content : Bytes) (identity : Option Identity) : CandidateDescriptor where
  size     := content.length
  revision := Codec.revision content
  identity := identity

-- `_windows_candidate_matches`
def candidateMatches (snapshot : Option File) (expected : CandidateDescriptor) : Bool :=
  snapshot.any fun f => f.content.length = expected.size &&
    Codec.revision f.content = expected.revision && expected.identity.all (· = f.identity)

end Descriptors

section Operations

namespace Disk

def put (s : Disk) (n : Name) (f : Option File) : Disk :=
  { s with files := Function.update s.files n f }

def create (s : Disk) (n : Name) : Disk :=
  { s.put n (some ⟨s.next, true, []⟩) with next := s.next + 1 }

def append (s : Disk) (n : Name) (bytes : Bytes) : Disk :=
  s.put n <| (s.files n).map fun f => { f with content := f.content ++ bytes }

def rename (s : Disk) (source destination : Name) : Disk :=
  (s.put destination (s.files source)).put source none

end Disk

-- `os.open(path, O_CREAT | O_EXCL)`
def create (n : Name) : Program Unit :=
  attempt (fun s => (s.files n).isNone) (·.create n) .os

-- `os.write`
def append (n : Name) (bytes : Bytes) : Program Unit :=
  attempt (fun s => (s.files n).isSome) (·.append n bytes) .os

-- `os.replace`
def replace (source destination : Name) : Program Unit :=
  attempt (fun s => (s.files source).isSome) (·.rename source destination) .missing

-- `os.unlink`
def unlink (n : Name) : Program Unit :=
  attempt (fun s => (s.files n).isSome) (·.put n none) .missing

-- `path.exists() or path.is_symlink()`
def pathExists (n : Name) : Program Bool :=
  read fun s => (s.files n).isSome

-- `_read_safe_windows_file`: a file that is not the same after it has been read is no snapshot.
def readSafeWindowsFile (n : Name) : Program File := do
  match ← read (·.files n) with
  | none   => raise .missing
  | some f =>
    require (f.safe = true) .unsafePath
    let completed ← read (·.files n)
    require (completed = some f) .unsafePath
    return f

-- `_read_optional_safe_windows_file`
def readOptionalSafeWindowsFile (n : Name) : Program (Option File) :=
  (some <$> readSafeWindowsFile n).handle fun e =>
    if e = .missing then pure none else raise e

-- The loop that writes a file. How many bytes each call of `os.write` takes is up to the system.
def writeAll (n : Name) : List Nat → Bytes → Program Unit
  | [],      content => if content = [] then pure () else append n content
  | k :: ks, content =>
    if content = [] then
      pure ()
    else do
      append n (content.take (k + 1))
      writeAll n ks (content.drop (k + 1))

-- `_write_private_windows_file`
def writePrivateWindowsFile (n : Name) (sizes : List Nat) (content : Bytes) : Program File := do
  create n
  writeAll n sizes content
  let snapshot ← readSafeWindowsFile n
  require (snapshot.content = content) .unsafePath
  return snapshot

-- `_windows_replace_file`
def windowsReplaceFile (path replacement backup : Name) : Program Unit := do
  replace path backup
  replace replacement path

end Operations

variable [Codec]

section Recovery

-- `_unlink_matching_windows_file`
def unlinkMatchingWindowsFile (n : Name) (expected : Descriptor) : Program Unit := do
  match ← readOptionalSafeWindowsFile n with
  | none   => pure ()
  | some f =>
    require (publicationMatches (some f) expected = true) .unsafePath
    unlink n

-- `_unlink_matching_windows_candidate`
def unlinkMatchingWindowsCandidate (n : Name) (expected : CandidateDescriptor) : Program Unit := do
  match ← readOptionalSafeWindowsFile n with
  | none   => pure ()
  | some f =>
    require (candidateMatches (some f) expected = true) .unsafePath
    unlink n

-- `_unlink_owned_windows_candidate`
def unlinkOwnedWindowsCandidate (n : Name) : Program Unit := do
  match ← readOptionalSafeWindowsFile n with
  | none   => pure ()
  | some _ => unlink n

-- A snapshot of a file that may be anything, and whether there is one at all.
def inspect (n : Name) : Program (Option File × Bool) :=
  (do
    let snapshot ← readOptionalSafeWindowsFile n
    return (snapshot, snapshot.isSome)).handle fun e => do
      require (e = Failure.unsafePath) e
      let found ← pathExists n
      return (none, found)

-- What the files of a publication are found to be.
structure Findings where
  target       : Option File
  targetExists : Bool
  candidate    : Option File
  backup       : Option File
  backupExists : Bool

namespace Findings

variable (x : Findings) (m : Marker)

def targetIsExpected : Bool :=
  publicationMatches x.target m.expected

def targetIsCandidate : Bool :=
  candidateMatches x.target m.candidate

def targetIsManual : Bool :=
  x.targetExists && !x.targetIsExpected m && !x.targetIsCandidate m

def candidateIsCandidate : Bool :=
  candidateMatches x.candidate m.candidate

def backupIsExpected : Bool :=
  publicationMatches x.backup m.expected

end Findings

-- A target that another program has put there before it was replaced is put back.
def restoreTarget (marker : Descriptor) (m : Marker) : Program Disposition := do
  replace (.backup m.backupToken) .target
  let (restored, found) ← inspect .target
  if !found || candidateMatches restored m.candidate then
    raise .unsafePath
  else do
    unlinkMatchingWindowsFile .marker marker
    return .manualTarget

-- The last part of `_recover_windows_publication`, where what is found decides
def settle (marker : Descriptor) (m : Marker) (x : Findings) : Program Disposition :=
  if x.targetIsExpected m && !x.backupExists then do
    if x.candidate.isSome then
      unlinkMatchingWindowsCandidate (.candidate m.candidateToken) m.candidate
    unlinkMatchingWindowsFile .marker marker
    return .aborted
  else if x.targetIsCandidate m && x.backupIsExpected m then do
    unlinkMatchingWindowsFile (.backup m.backupToken) m.expected
    unlinkMatchingWindowsFile .marker marker
    return .committed
  else if x.targetIsCandidate m && !x.backupExists then do
    unlinkMatchingWindowsFile .marker marker
    return .committed
  else if x.targetIsCandidate m && x.backupExists then do
    require (x.candidate = none) .unsafePath
    restoreTarget marker m
  else if x.targetIsManual m && x.candidateIsCandidate m && !x.backupExists then do
    unlinkMatchingWindowsCandidate (.candidate m.candidateToken) m.candidate
    unlinkMatchingWindowsFile .marker marker
    return .manualTarget
  else if x.targetIsManual m && x.candidate.isNone && !x.backupExists then do
    unlinkMatchingWindowsFile .marker marker
    return .manualTarget
  else if x.targetIsManual m && x.candidate.isNone && x.backupIsExpected m then do
    unlinkMatchingWindowsFile (.backup m.backupToken) m.expected
    unlinkMatchingWindowsFile .marker marker
    return .manualTarget
  else
    raise .unsafePath

def resolve (marker : File) (m : Marker) : Program Disposition := do
  let (target, targetExists) ← inspect .target
  let candidate ← readOptionalSafeWindowsFile (.candidate m.candidateToken)
  let (backup, backupExists) ← inspect (.backup m.backupToken)
  settle marker.descriptor m ⟨target, targetExists, candidate, backup, backupExists⟩

def recoverWindowsPublication : Program Disposition := do
  match ← readOptionalSafeWindowsFile .marker with
  | none        =>
    match ← readOptionalSafeWindowsFile .staging with
    | none   => return .none
    | some _ =>
      unlink .staging
      return .aborted
  | some marker =>
    if (← readOptionalSafeWindowsFile .staging).isSome then
      unlinkOwnedWindowsCandidate .staging
    match Codec.parseMarker marker.content with
    | none   => raise .unsafePath
    | some m => resolve marker m

end Recovery

section Publishing

-- The arguments of `_atomic_write_windows`, the token that is drawn, and the sizes of the writes.
structure Publication where
  content        : Bytes
  source         : File
  token          : String
  markerSizes    : List Nat
  candidateSizes : List Nat
  readySizes     : List Nat

def Publication.marker (p : Publication) (identity : Option Identity) : Marker where
  candidateToken := p.token
  backupToken    := p.token
  expected       := p.source.descriptor
  candidate      := candidateDescriptor p.content identity

-- `_verify_config_mutation_source`
def verifyConfigMutationSource (source : File) : Program Unit := do
  let current ← (readSafeWindowsFile .target).handle fun _ => raise .stale
  require (current.descriptor = source.descriptor) .stale

-- The story of a publication, which is made from the file at the target, unless another program has
-- put one there since.
def Publication.story (p : Publication) (s : Disk) : Story :=
  match (s.files .target).filter (·.descriptor = p.source.descriptor) with
  | some f => ⟨f, p.content, none⟩
  | none   => ⟨p.source, p.content, s.story.outside⟩

-- From here on the story is about this publication.
def announce (p : Publication) : Program Unit :=
  .step (fun s => { s with story := p.story s }) fun _ => pure ()

-- The `except` clauses of `_atomic_write_windows`
def recoverFrom (e : Failure) : Program Unit :=
  if e = .stale then
    raise .stale
  else do
    match ← recoverWindowsPublication.handle fun _ => raise .postReplace with
    | .committed    => pure ()
    | .manualTarget => raise .stale
    | _             => raise e

-- Its `finally` clause, for a publication that has no marker
def unlinkUnmarked (p : Publication) (x : Program Unit) : Program Unit :=
  let cleanup := (unlinkMatchingWindowsCandidate (.candidate p.token)
    (candidateDescriptor p.content none)).handle fun _ => pure ()
  (x >>= fun _ => cleanup).handle fun e => cleanup >>= fun _ => raise e

def stageMarker (p : Publication) (sizes : List Nat) (identity : Option Identity) : Program File :=
  writePrivateWindowsFile .staging sizes (Codec.markerBytes (p.marker identity))

-- A marker that was staged takes the place of the one before.
def moveMarker (staged : File) : Program Unit := do
  replace .staging .marker
  let snapshot ← readSafeWindowsFile .marker
  require (publicationMatches (some snapshot) staged.descriptor = true) .unsafePath

def publish (p : Publication) (staged : File) : Program Unit := do
  moveMarker staged
  let candidate ← writePrivateWindowsFile (.candidate p.token) p.candidateSizes p.content
  require (candidateMatches (some candidate) (candidateDescriptor p.content none) = true) .unsafePath
  let ready ← stageMarker p p.readySizes (some candidate.identity)
  moveMarker ready
  windowsReplaceFile .target (.candidate p.token) (.backup p.token)
  match ← recoverWindowsPublication with
  | .committed    => pure ()
  | .manualTarget => raise .stale
  | _             => raise .postReplace

def atomicWriteWindows (p : Publication) : Program Unit := do
  let recovery ← recoverWindowsPublication
  require (recovery ≠ .manualTarget) .stale
  verifyConfigMutationSource p.source
  announce p
  let staged ← (some <$> stageMarker p p.markerSizes none).handle fun e => do
    unlinkUnmarked p (recoverFrom e)
    return none
  match staged with
  | none        => pure ()
  | some staged => (publish p staged).handle recoverFrom

end Publishing

end Config
