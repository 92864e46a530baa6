import EmailWatcher.Config.Crashes

-- Publications and recoveries one after another, any of which may be cut short by the death of its
-- process.
namespace Config

open Script

section Frames

variable [Codec] {n : Name} {m : Marker} {d : Descriptor}

omit [Codec] in
theorem keeps_readSafeWindowsFile : Keeps Disk.story (readSafeWindowsFile n) := by
  refine .bind .read fun f => ?_
  cases f
  case none   => exact .raise
  case some f => exact .bind .require fun _ => .bind .read fun _ => .bind .require fun _ => .pure

omit [Codec] in
theorem keeps_readOptionalSafeWindowsFile : Keeps Disk.story (readOptionalSafeWindowsFile n) := by
  refine .handle (.bind keeps_readSafeWindowsFile fun _ => .pure) fun e => ?_
  split
  · exact .pure
  · exact .raise

omit [Codec] in
theorem keeps_inspect : Keeps Disk.story (inspect n) :=
  .handle (.bind keeps_readOptionalSafeWindowsFile fun _ => .pure) fun _ =>
    .bind .require fun _ => .bind .read fun _ => .pure

omit [Codec] in
theorem keeps_unlink : Keeps Disk.story (unlink n) :=
  .attempt fun _ => rfl

theorem keeps_unlinkMatchingWindowsFile : Keeps Disk.story (unlinkMatchingWindowsFile n d) := by
  refine .bind keeps_readOptionalSafeWindowsFile fun f => ?_
  cases f
  · exact .pure
  · exact .bind .require fun _ => keeps_unlink

theorem keeps_unlinkMatchingWindowsCandidate {d : CandidateDescriptor} :
    Keeps Disk.story (unlinkMatchingWindowsCandidate n d) := by
  refine .bind keeps_readOptionalSafeWindowsFile fun f => ?_
  cases f
  · exact .pure
  · exact .bind .require fun _ => keeps_unlink

omit [Codec] in
theorem keeps_unlinkOwnedWindowsCandidate : Keeps Disk.story (unlinkOwnedWindowsCandidate n) := by
  refine .bind keeps_readOptionalSafeWindowsFile fun f => ?_
  cases f
  · exact .pure
  · exact keeps_unlink

theorem keeps_restoreTarget : Keeps Disk.story (restoreTarget d m) := by
  refine .bind (.attempt fun _ => rfl) fun _ => .bind keeps_inspect fun x => ?_
  obtain ⟨restored, found⟩ := x
  dsimp only
  split
  · exact .raise
  · exact .bind keeps_unlinkMatchingWindowsFile fun _ => .pure

theorem keeps_settle {x : Findings} : Keeps Disk.story (settle d m x) := by
  have hmarker (e : Disposition) :
      Keeps Disk.story (do unlinkMatchingWindowsFile .marker d; return e) :=
    .bind keeps_unlinkMatchingWindowsFile fun _ => .pure
  have hcandidate (e : Disposition) : Keeps Disk.story (do
      unlinkMatchingWindowsCandidate (.candidate m.candidateToken) m.candidate
      unlinkMatchingWindowsFile .marker d
      return e) :=
    .bind keeps_unlinkMatchingWindowsCandidate fun _ => hmarker e
  have hbackup (e : Disposition) : Keeps Disk.story (do
      unlinkMatchingWindowsFile (.backup m.backupToken) m.expected
      unlinkMatchingWindowsFile .marker d
      return e) :=
    .bind keeps_unlinkMatchingWindowsFile fun _ => hmarker e
  rw [settle]
  split_ifs
  · exact hcandidate .aborted
  · exact hmarker .aborted
  · exact hbackup .committed
  · exact hmarker .committed
  · exact .bind .require fun _ => keeps_restoreTarget
  · exact hcandidate .manualTarget
  · exact hmarker .manualTarget
  · exact hbackup .manualTarget
  · exact .raise

theorem keeps_resolve {marker : File} : Keeps Disk.story (resolve marker m) :=
  .bind keeps_inspect fun _ => .bind keeps_readOptionalSafeWindowsFile fun _ =>
    .bind keeps_inspect fun _ => keeps_settle

-- Recovery tells no story of its own.
theorem keeps_recoverWindowsPublication : Keeps Disk.story recoverWindowsPublication := by
  refine .bind keeps_readOptionalSafeWindowsFile fun x => ?_
  obtain _ | marker := x
  case none =>
    refine .bind keeps_readOptionalSafeWindowsFile fun x => ?_
    cases x
    · exact .pure
    · exact .bind keeps_unlink fun _ => .pure
  case some =>
    refine .bind keeps_readOptionalSafeWindowsFile fun x => ?_
    dsimp only
    cases Codec.parseMarker marker.content
    case none =>
      split
      · exact .bind keeps_unlinkOwnedWindowsCandidate fun _ => .raise
      · exact .raise
    case some m =>
      split
      · exact .bind keeps_unlinkOwnedWindowsCandidate fun _ => keeps_resolve
      · exact keeps_resolve

end Frames

section Runs

variable [Codec]

inductive Call
  | recover
  | publish (p : Publication)

def Call.program : Call → Program Unit
  | .recover   => do let _ ← recoverWindowsPublication
  | .publish p => atomicWriteWindows p

-- A directory in which nothing has been published so far.
def Disk.initial (content : Bytes) : Disk where
  files := Layout.files ⟨"", some ⟨0, true, content⟩, none, none, none, none⟩
  next  := 1
  story := ⟨⟨0, true, content⟩, content, none⟩

-- One process after another works in the directory, and other programs put files at the target.
abbrev directory : Machine (World Disk Failure Unit) (Move Call (Bool × Bytes)) Unit :=
  world Call.program fun x s => s.overwrite x

-- What an uninterrupted recovery makes of the disk.
structure Recovers (s : Disk) (d : Disposition) (s' : Disk) (f : File) : Prop where
  succeeds  : recoverWindowsPublication.exec s = (.ok d, s')
  target    : s'.files .target = some f
  clean     : ∀ n, n ≠ .target → s'.files n = none
  outside   : ∀ f', s.story.outside = some f' → f = f'
  bytes     : s.story.outside = none → f.content = s.story.old.content ∨ f.content = s.story.new
  aborted   : s.story.outside = none → d = .aborted → f.content = s.story.old.content
  committed : s.story.outside = none → d = .committed → f.content = s.story.new
  ours      : s.story.outside = none → d ≠ .manualTarget

-- The file of another program is on the disk, and once no process is at work, recovery succeeds.
structure Replayable (w : World Disk Failure Unit) : Prop where
  kept   : ∀ f, w.state.story.outside = some f → ∃ n, w.state.files n = some f
  replay : w.process = none → ∃ d s' f, Recovers w.state d s' f

variable {s : Disk} {content : Bytes}

theorem Disk.initial_sound : Sound (Disk.initial content) := by
  refine .settled (o := ⟨0, true, content⟩) (w := content) (k := "") (f := ⟨0, true, content⟩)
    ⟨⟨rfl, rfl, Nat.one_pos, fun n f hf => ?_, fun _ => rfl, by simp [Disk.initial]⟩, rfl,
      fun _ => ⟨rfl, .inl rfl⟩, by simp [Disk.initial]⟩
  cases n <;> simp [Disk.initial, Layout.files] at hf
  simp [← hf, Disk.initial]

theorem Sound.recovers (h : Sound s) : ∃ d s' f, Recovers s d s' f := by
  have hkeeps : (recoverWindowsPublication.exec s).snd.story = s.story :=
    keeps_recoverWindowsPublication.exec
  obtain ⟨d, hd, k, f, h, hours⟩ := (recover_sound h).exec
  have hclean (n : Name) (hn : n ≠ .target) : (recoverWindowsPublication.exec s).snd.files n = none := by
    rw [h.files]
    cases n <;> simp_all [Layout.files]
  have hout (hn : s.story.outside = none) := hours (by rw [hkeeps, hn])
  refine ⟨d, _, f, Prod.ext hd rfl, by simp [h.files, Layout.files], hclean, ?_, ?_, ?_, ?_, ?_⟩
  · exact fun f' hf => h.outside f' (by rw [hkeeps, hf])
  · exact fun hn => (h.bytes (by rw [hkeeps, hn])).right
  · exact fun hn => (hout hn).right.left
  · exact fun hn => (hout hn).right.right
  · exact fun hn => (hout hn).left

theorem Call.program_safe (c : Call) (h : Sound s) :
    Safe Consistent Interferes (fun _ s => Sound s) c.program s := by
  cases c
  case recover =>
    refine Safe.bind (recover_sound h) ?_ fun _ _ h => h.sound
    exact fun _ _ h => Safe.of_pure Sound.stable (fun _ h => h) h.sound
  case publish p => exact atomicWriteWindows_safe h

-- A process may be cut short anywhere but where a candidate is only partly written, where nothing is
-- at the target, and where a candidate cannot be told from the file of another program. Other
-- programs may put files at the target unless nothing is there, a file of theirs is the backup, or it
-- cannot be told from a candidate.
theorem windows_publication_replays {as : List (Move Call (Bool × Bytes))}
    (h : directory.Guarded (Admits (·.mayDie) fun s x => s.mayOverwrite x)
      ⟨.initial content, none⟩ as) :
    Replayable (directory.run ⟨.initial content, none⟩ as) := by
  have hsound := World.sound_run (fun c _ h => Call.program_safe c h) (fun _ h => h.consistent)
    (fun _ h hd => h.sound hd) Sound.stable (fun s x hx => ⟨x, hx, rfl⟩) Disk.initial_sound h
  refine ⟨(World.Sound.invariant (fun _ h => h.consistent) hsound).kept, fun hp => ?_⟩
  rw [World.Sound, hp] at hsound
  exact Sound.recovers hsound

end Runs

namespace Sample

-- A marker as a list of numbers, and a number as so many ones and a zero.
def text (t : String) : List Nat :=
  t.toList.length :: t.toList.map Char.toNat

def readText : List Nat → Option (String × List Nat)
  | []        => none
  | n :: rest => some (String.ofList ((rest.take n).map Char.ofNat), rest.drop n)

def numbers (m : Marker) : List Nat :=
  text m.candidateToken ++ text m.backupToken ++
    m.expected.identity.inode :: m.expected.identity.size :: text m.expected.revision ++
    m.candidate.size :: text m.candidate.revision ++
    (m.candidate.identity.elim [] fun i => [i.inode, i.size])

def readMarker (ns : List Nat) : Option Marker := do
  let (candidateToken, ns) ← readText ns
  let (backupToken, ns) ← readText ns
  let (inode, ns) ← ns.head?.map (·, ns.tail)
  let (size, ns) ← ns.head?.map (·, ns.tail)
  let (revision, ns) ← readText ns
  let (candidateSize, ns) ← ns.head?.map (·, ns.tail)
  let (candidateRevision, ns) ← readText ns
  return ⟨candidateToken, backupToken, ⟨⟨inode, size⟩, revision⟩, candidateSize, candidateRevision,
    ns.head?.map fun i => ⟨i, ns.getLastD 0⟩⟩

def unary (ns : List Nat) : Bytes :=
  ns.flatMap fun n => List.replicate n 1 ++ [0]

def readUnary (n : Nat) : Bytes → List Nat
  | []        => []
  | b :: rest => if b = 0 then n :: readUnary 0 rest else readUnary (n + 1) rest

theorem readText_append {t : String} {rest : List Nat} :
    readText (text t ++ rest) = some (t, rest) := by
  simp [text, readText, Function.comp_def]

theorem readText_text {t : String} : readText (text t) = some (t, []) := by
  simp [text, readText, Function.comp_def]

theorem readMarker_numbers {m : Marker} : readMarker (numbers m) = some m := by
  obtain ⟨_, _, _, _, _, i⟩ := m
  cases i <;> simp [readMarker, numbers, readText_append, readText_text]

theorem readUnary_replicate {n k : Nat} {rest : Bytes} :
    readUnary k (List.replicate n 1 ++ 0 :: rest) = (k + n) :: readUnary 0 rest := by
  induction n generalizing k
  case zero      => simp [readUnary]
  case succ n ih =>
    rw [List.replicate_succ, List.cons_append, readUnary, if_neg (by decide), ih]
    congr 1
    omega

theorem readUnary_unary {ns : List Nat} : readUnary 0 (unary ns) = ns := by
  induction ns
  case nil          => rfl
  case cons n ns ih => simpa [unary, readUnary_replicate] using ih

instance codec : Codec where
  revision content  := String.ofList <| content.map fun b => Char.ofNat b.toNat
  markerBytes m     := unary (numbers m)
  parseMarker bytes := readMarker (readUnary 0 bytes)
  parse_markerBytes := fun m => by rw [readUnary_unary, readMarker_numbers]

def twoBytes : Publication where
  content        := [1, 2]
  source         := ⟨0, true, [0]⟩
  token          := "k"
  markerSizes    := []
  candidateSizes := []
  readySizes     := []

def steps (n : Nat) : List (Move Call (Bool × Bytes)) :=
  .start (.publish twoBytes) :: List.replicate n .step

end Sample

open Sample in
-- The process dies once the target has been replaced, and another program puts a file there.
theorem windows_publication_replays_sample :
    Replayable (directory.run ⟨.initial [0], none⟩ (steps 25 ++ [.die, .interfere (true, [3])])) :=
  windows_publication_replays (by decide +kernel)

open Sample in
-- The process dies when the candidate has been created, and nothing has been written to it so far.
theorem windows_publication_does_not_always_replay :
    ¬ ∀ as, Replayable (directory.run ⟨.initial [0], none⟩ as) := by
  intro h
  obtain ⟨d, s', f, hr⟩ := (h (steps 13 ++ [.die])).replay (by decide +kernel)
  have hfails : (recoverWindowsPublication.exec
      (directory.run ⟨.initial [0], none⟩ (steps 13 ++ [.die])).state).fst.isOk = false := by
    decide +kernel
  rw [hr.succeeds] at hfails
  cases hfails

end Config
