import EmailWatcher.Config.Publication

-- The states that a publication goes through, and what another program can make of them.
namespace Config

open Script

variable [Codec]

section Interference

namespace Disk

variable (s : Disk)

-- The marker, as far as it can be read.
def readMarker : Option Marker :=
  (s.files .marker).bind fun f => Codec.parseMarker f.content

-- The candidate that the marker names is not what the marker says.
def torn : Bool :=
  s.readMarker.any fun m => (s.files (.candidate m.candidateToken)).any fun f =>
    !candidateMatches (some f) m.candidate

-- The marker does not tell the candidate from a file that another program has put at the target, and
-- that has the same bytes.
def twin : Bool :=
  s.readMarker.any fun m => m.candidate.identity.isNone &&
    candidateMatches (s.files (.candidate m.candidateToken)) m.candidate &&
    candidateMatches (s.files .target) m.candidate &&
    !publicationMatches (s.files .target) m.expected

-- The backup is not the file that was to be replaced.
def stacked : Bool :=
  s.readMarker.any fun m => (s.files (.backup m.backupToken)).any fun f =>
    !publicationMatches (some f) m.expected

-- Another program atomically puts a file of its own at the target.
def overwrite (x : Bool × Bytes) : Disk :=
  let f : File := ⟨s.next, x.fst, x.snd⟩
  { files := Function.update s.files .target (some f)
    next  := s.next + 1
    story := { s.story with outside := some f } }

-- The process may die in this state.
def mayDie : Bool :=
  (s.files .target).isSome && !s.torn && !s.twin

-- Another program may put this file at the target.
def mayOverwrite (x : Bool × Bytes) : Bool :=
  (s.files .target).isSome && !s.stacked && !(s.overwrite x).twin

end Disk

-- What the others may do in one step.
def Interferes (s s' : Disk) : Prop :=
  ∃ x, s.mayOverwrite x ∧ s' = s.overwrite x

end Interference

section Layouts

-- What lies under each name, with at most one candidate and at most one backup.
structure Layout where
  token     : String
  target    : Option File
  marker    : Option File
  staging   : Option File
  candidate : Option File
  backup    : Option File

def Layout.files (l : Layout) : Name → Option File
  | .target      => l.target
  | .marker      => l.marker
  | .staging     => l.staging
  | .candidate k => if k = l.token then l.candidate else none
  | .backup k    => if k = l.token then l.backup else none

namespace Layout

variable (l : Layout) (f : Option File)

omit [Codec] in
@[simp]
theorem update_target : Function.update l.files .target f = { l with target := f }.files := by
  funext n
  cases n <;> simp [files, Function.update]

omit [Codec] in
@[simp]
theorem update_marker : Function.update l.files .marker f = { l with marker := f }.files := by
  funext n
  cases n <;> simp [files, Function.update]

omit [Codec] in
@[simp]
theorem update_staging : Function.update l.files .staging f = { l with staging := f }.files := by
  funext n
  cases n <;> simp [files, Function.update]

omit [Codec] in
@[simp]
theorem update_candidate :
    Function.update l.files (.candidate l.token) f = { l with candidate := f }.files := by
  funext n
  cases n
  case candidate k => by_cases hk : k = l.token <;> simp [files, Function.update, hk]
  all_goals simp [files, Function.update]

omit [Codec] in
@[simp]
theorem update_backup : Function.update l.files (.backup l.token) f = { l with backup := f }.files := by
  funext n
  cases n
  case backup k => by_cases hk : k = l.token <;> simp [files, Function.update, hk]
  all_goals simp [files, Function.update]

omit [Codec] in
-- Without a candidate and a backup the token does not matter.
theorem files_congr (hc : l.candidate = none) (hb : l.backup = none) (k : String) :
    l.files = { l with token := k }.files := by
  funext n
  cases n <;> simp [files, hc, hb]

end Layout

end Layouts

section Phases

-- What holds of a disk in all phases: the story is about the file `o` and the bytes `w`.
structure Told (o : File) (w : Bytes) (s : Disk) : Prop where
  old     : s.story.old = o
  new     : s.story.new = w
  fresh   : o.inode < s.next
  inodes  : ∀ n f, s.files n = some f → f.inode < s.next
  safe    : s.story.outside = none → o.safe
  foreign : ∀ f, s.story.outside = some f → f.descriptor ≠ o.descriptor

-- The file that is to survive: the one that another program has put there, or else the old one.
def Disk.held (s : Disk) : File :=
  s.story.outside.getD s.story.old

namespace Disk

variable (s : Disk) (n n' : Name) (f : Option File) (bytes : Bytes)

omit [Codec]

@[simp]
theorem files_put : (s.put n f).files = Function.update s.files n f :=
  rfl

@[simp]
theorem story_put : (s.put n f).story = s.story :=
  rfl

@[simp]
theorem held_put : (s.put n f).held = s.held :=
  rfl

@[simp]
theorem files_create :
    (s.create n).files = Function.update s.files n (some ⟨s.next, true, []⟩) :=
  rfl

@[simp]
theorem story_create : (s.create n).story = s.story :=
  rfl

@[simp]
theorem held_create : (s.create n).held = s.held :=
  rfl

@[simp]
theorem files_append : (s.append n bytes).files = Function.update s.files n
    ((s.files n).map fun f => { f with content := f.content ++ bytes }) :=
  rfl

@[simp]
theorem story_append : (s.append n bytes).story = s.story :=
  rfl

@[simp]
theorem held_append : (s.append n bytes).held = s.held :=
  rfl

@[simp]
theorem files_rename : (s.rename n n').files =
    Function.update (Function.update s.files n' (s.files n)) n none :=
  rfl

@[simp]
theorem story_rename : (s.rename n n').story = s.story :=
  rfl

@[simp]
theorem held_rename : (s.rename n n').held = s.held :=
  rfl

end Disk

-- A marker of the publication that the story is about.
structure IsMarker (o : File) (w : Bytes) (k : String) (id : Option Identity) (m : File) : Prop where
  safe  : m.safe
  parse : Codec.parseMarker m.content = some ⟨k, k, o.descriptor, candidateDescriptor w id⟩

-- Nothing is on its way.
structure Settled (o : File) (w : Bytes) (k : String) (f : File) (s : Disk) : Prop where
  told    : Told o w s
  files   : s.files = Layout.files ⟨k, some f, none, none, none, none⟩
  bytes   : s.story.outside = none → f.safe ∧ (f.content = o.content ∨ f.content = w)
  outside : ∀ f', s.story.outside = some f' → f = f'

-- A marker is being written.
structure Staged (o : File) (w : Bytes) (k : String) (staging : Option File) (s : Disk) : Prop where
  told  : Told o w s
  files : s.files = Layout.files ⟨k, some s.held, none, staging, none, none⟩

-- The marker is there, and the target has not been replaced.
structure Marked (o : File) (w : Bytes) (k : String) (m : File) (staging candidate : Option File)
    (s : Disk) : Prop where
  told  : Told o w s
  files : s.files = Layout.files ⟨k, some s.held, some m, staging, candidate, none⟩
  apart : ∀ c, candidate = some c → c.inode ≠ o.inode ∧
    ∀ f, s.story.outside = some f → f.inode ≠ c.inode

-- The candidate has taken the place of the file that is now the backup.
structure Swapped (o : File) (w : Bytes) (k : String) (m c : File) (s : Disk) : Prop where
  told  : Told o w s
  files : s.files = Layout.files ⟨k, some c, some m, none, none, some s.held⟩
  apart : ∀ f, s.story.outside = some f → f.inode ≠ c.inode

-- Another program has put a file where the candidate had been put.
structure Overtaken (o : File) (w : Bytes) (k : String) (m c : File) (s : Disk) : Prop where
  told    : Told o w s
  files   : s.files = Layout.files ⟨k, some s.held, some m, none, none, some o⟩
  outside : s.story.outside.isSome
  safe    : o.safe
  known   : c.inode < s.next
  apart   : ∀ f, s.story.outside = some f → f.inode ≠ c.inode

-- There is no backup any more.
structure Unbacked (o : File) (w : Bytes) (k : String) (m c : File) (s : Disk) : Prop where
  told  : Told o w s
  files : s.files = Layout.files ⟨k, some (s.story.outside.getD c), some m, none, none, none⟩
  known : c.inode < s.next
  apart : ∀ f, s.story.outside = some f → f.inode ≠ c.inode

-- A candidate that has been written, and told from the old file.
structure IsCandidate (o : File) (w : Bytes) (c : File) : Prop where
  safe    : c.safe
  content : c.content = w
  apart   : c.inode ≠ o.inode

-- A state from which an uninterrupted recovery succeeds.
inductive Sound (s : Disk) : Prop
  | settled {o : File} {w : Bytes} {k : String} {f : File} (h : Settled o w k f s)
  | staged {o : File} {w : Bytes} {k : String} {staging : File} (h : Staged o w k (some staging) s)
      (safe : staging.safe)
  | marked {o : File} {w : Bytes} {k : String} {m : File} {id : Option Identity}
      {staging candidate : Option File} (h : Marked o w k m staging candidate s)
      (marker : IsMarker o w k id m) (staging_safe : ∀ f, staging = some f → f.safe)
      (candidate_safe : ∀ c, candidate = some c → c.safe)
      (candidate_matches : ∀ c, candidate = some c →
        candidateMatches (some c) (candidateDescriptor w id))
      (outside_differs : candidate.isSome →
        candidateMatches s.story.outside (candidateDescriptor w id) = false)
  | swapped {o : File} {w : Bytes} {k : String} {m c : File} (h : Swapped o w k m c s)
      (marker : IsMarker o w k (some c.identity) m) (candidate : IsCandidate o w c)
  | overtaken {o : File} {w : Bytes} {k : String} {m c : File} (h : Overtaken o w k m c s)
      (marker : IsMarker o w k (some c.identity) m) (candidate : IsCandidate o w c)
  | unbacked {o : File} {w : Bytes} {k : String} {m c : File} (h : Unbacked o w k m c s)
      (marker : IsMarker o w k (some c.identity) m) (candidate : IsCandidate o w c)

-- What holds in every state: another's file is on the disk, and where the process may die the state is
-- sound.
structure Consistent (s : Disk) : Prop where
  kept  : ∀ f, s.story.outside = some f → ∃ n, s.files n = some f
  sound : s.mayDie → Sound s

end Phases

section Stability

variable {o c m : File} {w : Bytes} {k : String} {id : Option Identity} {s s' : Disk}
  {staging candidate : Option File} {x : Bool × Bytes}

theorem IsMarker.readMarker (hm : IsMarker o w k id m) (h : s.files .marker = some m) :
    s.readMarker = some ⟨k, k, o.descriptor, candidateDescriptor w id⟩ := by
  simp [Disk.readMarker, h, hm.parse]

-- Files of different inodes are told apart.
theorem descriptor_ne {f f' : File} (h : f.inode ≠ f'.inode) : f.descriptor ≠ f'.descriptor := by
  intro he
  exact h (congrArg (·.identity.inode) he)

theorem candidateMatches_of_inode_ne {f : File} (h : f.inode ≠ c.inode) :
    candidateMatches (some f) (candidateDescriptor w (some c.identity)) = false := by
  simp [candidateMatches, candidateDescriptor, File.identity, h.symm]

theorem candidateMatches_self (hc : c.content = w) (hi : id = none ∨ id = some c.identity) :
    candidateMatches (some c) (candidateDescriptor w id) := by
  obtain rfl | rfl := hi <;> simp [candidateMatches, candidateDescriptor, hc]

@[simp]
theorem publicationMatches_none (d : Descriptor) : publicationMatches none d = false :=
  rfl

@[simp]
theorem candidateMatches_none (d : CandidateDescriptor) : candidateMatches none d = false :=
  rfl

theorem publicationMatches_iff {f : File} {d : Descriptor} :
    publicationMatches (some f) d = true ↔ f.descriptor = d := by
  simp [publicationMatches]

omit [Codec] in
theorem held_overwrite : (s.overwrite x).held = ⟨s.next, x.fst, x.snd⟩ :=
  rfl

theorem Told.overwrite (h : Told o w s) : Told o w (s.overwrite x) where
  old     := h.old
  new     := h.new
  fresh   := Nat.lt_succ_of_lt h.fresh
  inodes n f hf := by
    by_cases hn : n = .target
    · subst hn
      obtain rfl : (⟨s.next, x.fst, x.snd⟩ : File) = f := by simpa [Disk.overwrite] using hf
      exact Nat.lt_succ_self _
    · exact Nat.lt_succ_of_lt <| h.inodes n f (by simpa [Disk.overwrite, hn] using hf)
  safe h₀ := by simp [Disk.overwrite] at h₀
  foreign f hf := by
    obtain rfl : (⟨s.next, x.fst, x.snd⟩ : File) = f := by simpa [Disk.overwrite] using hf
    exact descriptor_ne (Nat.ne_of_gt h.fresh)

-- The file that is put at the target is told from every file that was there before.
theorem Told.inode_ne {n : Name} {f : File} (h : Told o w s) (hf : s.files n = some f) :
    s.next ≠ f.inode :=
  Nat.ne_of_gt (h.inodes n f hf)

theorem Settled.overwrite {f : File} (h : Settled o w k f s) :
    Settled o w k ⟨s.next, x.fst, x.snd⟩ (s.overwrite x) where
  told    := h.told.overwrite
  files   := by simp [Disk.overwrite, h.files]
  bytes   := by simp [Disk.overwrite]
  outside := by simp [Disk.overwrite]

theorem Staged.overwrite (h : Staged o w k staging s) : Staged o w k staging (s.overwrite x) where
  told  := h.told.overwrite
  files := by
    rw [held_overwrite]
    simp [Disk.overwrite, h.files]

theorem Marked.overwrite (h : Marked o w k m staging candidate s) :
    Marked o w k m staging candidate (s.overwrite x) where
  told  := h.told.overwrite
  files := by
    rw [held_overwrite]
    simp [Disk.overwrite, h.files]
  apart c hc := by
    refine ⟨(h.apart c hc).left, fun f hf => ?_⟩
    obtain rfl : (⟨s.next, x.fst, x.snd⟩ : File) = f := by simpa [Disk.overwrite] using hf
    exact h.told.inode_ne (n := .candidate k) (by simp [h.files, Layout.files, hc])

theorem Overtaken.overwrite (h : Overtaken o w k m c s) :
    Overtaken o w k m c (s.overwrite x) where
  told    := h.told.overwrite
  files   := by
    rw [held_overwrite]
    simp [Disk.overwrite, h.files]
  outside := rfl
  safe    := h.safe
  known   := Nat.lt_succ_of_lt h.known
  apart f hf := by
    obtain rfl : (⟨s.next, x.fst, x.snd⟩ : File) = f := by simpa [Disk.overwrite] using hf
    exact Nat.ne_of_gt h.known

theorem Unbacked.overwrite (h : Unbacked o w k m c s) :
    Unbacked o w k m c (s.overwrite x) where
  told  := h.told.overwrite
  files := by simp [Disk.overwrite, h.files]
  known := Nat.lt_succ_of_lt h.known
  apart f hf := by
    obtain rfl : (⟨s.next, x.fst, x.snd⟩ : File) = f := by simpa [Disk.overwrite] using hf
    exact Nat.ne_of_gt h.known

-- As long as the backup is another's file, no further file is put at the target.
theorem Swapped.overwrite (h : Swapped o w k m c s) (hm : IsMarker o w k id m)
    (hx : s.mayOverwrite x) : Overtaken o w k m c (s.overwrite x) := by
  have hnone : s.story.outside = none := by
    cases hout : s.story.outside
    case none   => rfl
    case some f =>
      have hne := h.told.foreign f hout
      have hmarker := hm.readMarker (s := s) (by simp [h.files, Layout.files])
      simp [Disk.mayOverwrite, Disk.stacked, hmarker, h.files, Layout.files, Disk.held, hout,
        publicationMatches, hne] at hx
  have hc : s.files .target = some c := by simp [h.files, Layout.files]
  refine ⟨h.told.overwrite, ?_, rfl, h.told.safe hnone, Nat.lt_succ_of_lt (h.told.inodes _ _ hc), ?_⟩
  · rw [held_overwrite]
    simp [Disk.overwrite, h.files, Disk.held, hnone, h.told.old]
  · intro f hf
    obtain rfl : (⟨s.next, x.fst, x.snd⟩ : File) = f := by simpa [Disk.overwrite] using hf
    exact h.told.inode_ne hc

-- The file that is put beside a candidate is told from it.
theorem Marked.outside_differs (h : Marked o w k m staging candidate s) (hm : IsMarker o w k id m)
    (hmatch : ∀ c, candidate = some c → candidateMatches (some c) (candidateDescriptor w id))
    (hx : s.mayOverwrite x) (hc : candidate.isSome) :
    candidateMatches (s.overwrite x).story.outside (candidateDescriptor w id) = false := by
  obtain ⟨c, rfl⟩ := Option.isSome_iff_exists.mp hc
  have hself := hmatch c rfl
  have hmark : (s.overwrite x).readMarker = some ⟨k, k, o.descriptor, candidateDescriptor w id⟩ :=
    hm.readMarker (by simp [Disk.overwrite, h.files, Layout.files])
  have hne : s.next ≠ c.inode := h.told.inode_ne (n := .candidate k) (by simp [h.files, Layout.files])
  cases id
  case none   =>
    simp only [Disk.mayOverwrite, Bool.and_eq_true, Bool.not_eq_true'] at hx
    have htwin := hx.right
    rw [Disk.twin, hmark] at htwin
    have hcand : (s.overwrite x).files (.candidate k) = some c := by
      simp [Disk.overwrite, h.files, Layout.files]
    have htarget : (s.overwrite x).files .target = (s.overwrite x).story.outside := by
      simp [Disk.overwrite]
    have hforeign : publicationMatches (s.overwrite x).story.outside o.descriptor = false := by
      rw [← Bool.not_eq_true]
      exact fun he => h.told.overwrite.foreign _ rfl (publicationMatches_iff.mp he)
    simp only [Option.any_some, hcand, hself, htarget, hforeign] at htwin
    simpa [candidateDescriptor] using htwin
  case some i =>
    have hi : i = c.identity := by
      simp only [candidateMatches, candidateDescriptor, Option.any_some, Option.all_some,
        Bool.and_eq_true, decide_eq_true_eq] at hself
      exact hself.right
    subst hi
    exact candidateMatches_of_inode_ne hne

theorem Sound.overwrite (h : Sound s) (hx : s.mayOverwrite x) : Sound (s.overwrite x) := by
  cases h
  case settled h                          => exact .settled h.overwrite
  case staged h hs                        => exact .staged h.overwrite hs
  case marked h hm hs hc hmatch hdiff     =>
    exact .marked h.overwrite hm hs hc hmatch (h.outside_differs hm hmatch hx)
  case swapped h hm hc                    => exact .overtaken (h.overwrite hm hx) hm hc
  case overtaken h hm hc                  => exact .overtaken h.overwrite hm hc
  case unbacked h hm hc                   => exact .unbacked h.overwrite hm hc

-- The file of another program is on the disk in every phase.
theorem Sound.consistent (h : Sound s) : Consistent s := by
  refine ⟨fun f hf => ?_, fun _ => h⟩
  cases h
  case settled h       => exact ⟨.target, by simp [h.files, Layout.files, h.outside f hf]⟩
  case staged h _      => exact ⟨.target, by simp [h.files, Layout.files, Disk.held, hf]⟩
  case marked h _ _ _ _ _ => exact ⟨.target, by simp [h.files, Layout.files, Disk.held, hf]⟩
  case swapped k _ _ h _ _ => exact ⟨.backup k, by simp [h.files, Layout.files, Disk.held, hf]⟩
  case overtaken h _ _ => exact ⟨.target, by simp [h.files, Layout.files, Disk.held, hf]⟩
  case unbacked h _ _  => exact ⟨.target, by simp [h.files, Layout.files, hf]⟩

theorem Sound.stable : Stable Interferes Sound := by
  rintro s s' h ⟨x, hx, rfl⟩
  exact h.overwrite hx

end Stability

end Config