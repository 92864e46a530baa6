import EmailWatcher.Config.Phases

-- Recovery brings every sound state to an end, whatever another program does meanwhile.
namespace Config

open Script

variable [Codec]

section Reading

variable {A B : Disk → Prop} {n : Name} {f : File} {o : Option File} {s : Disk}

theorem readSafeWindowsFile_quiet (hs : Stable Interferes A) (hi : ∀ s, A s → Consistent s)
    (hf : ∀ s, A s → s.files n = some f) (hsafe : f.safe) (h : A s) :
    Safe Consistent Interferes (fun r s => r = .ok f ∧ A s) (readSafeWindowsFile n) s := by
  have hread : ∀ s, A s → Safe Consistent Interferes (fun r s => r = .ok (some f) ∧ A s)
      (read (·.files n) : Program (Option File)) s := by
    refine fun s h => Safe.of_read hs hi (fun s ha s' hr => ?_) h
    exact ⟨by rw [hf s ha], hs.many hr ha⟩
  refine Safe.bind (hread s h) ?_ (by simp)
  rintro _ s ⟨hr, ha⟩
  obtain rfl := Except.ok.inj hr
  dsimp only
  rw [require_bind hsafe]
  refine Safe.bind (hread s ha) ?_ (by simp)
  rintro _ s ⟨hr, ha⟩
  obtain rfl := Except.ok.inj hr
  rw [require_bind rfl]
  exact Safe.of_pure hs (fun s ha => ⟨rfl, ha⟩) ha

theorem readOptionalSafeWindowsFile_quiet (hs : Stable Interferes A) (hi : ∀ s, A s → Consistent s)
    (hf : ∀ s, A s → s.files n = o) (hsafe : ∀ f, o = some f → f.safe) (h : A s) :
    Safe Consistent Interferes (fun r s => r = .ok o ∧ A s) (readOptionalSafeWindowsFile n) s := by
  cases o
  case none =>
    refine Safe.handle (Q := fun r s => r = .error .missing ∧ A s) ?_ (by simp) ?_
    · refine Safe.bind (Q := fun r s => r = .error .missing ∧ A s) ?_ (by simp) (by simp)
      refine Safe.bind (Q := fun r s => r = .ok none ∧ A s) ?_ ?_ (by simp)
      · refine Safe.of_read hs hi (fun s ha s' hr => ?_) h
        exact ⟨by rw [hf s ha], hs.many hr ha⟩
      · rintro _ s ⟨hr, ha⟩
        obtain rfl := Except.ok.inj hr
        exact Safe.of_raise hs (fun s ha => ⟨rfl, ha⟩) ha
    · rintro _ s ⟨hr, ha⟩
      obtain rfl := Except.error.inj hr
      exact Safe.of_pure hs (fun s ha => ⟨rfl, ha⟩) ha
  case some f =>
    refine Safe.handle (Q := fun r s => r = .ok (some f) ∧ A s) ?_ (fun _ _ h => h) (by simp)
    refine Safe.bind (readSafeWindowsFile_quiet hs hi hf (hsafe f rfl) h) ?_ (by simp)
    rintro _ s ⟨hr, ha⟩
    obtain rfl := Except.ok.inj hr
    exact Safe.of_pure hs (fun s ha => ⟨rfl, ha⟩) ha

theorem inspect_quiet (hs : Stable Interferes A) (hi : ∀ s, A s → Consistent s)
    (hf : ∀ s, A s → s.files n = o) (h : A s) :
    Safe Consistent Interferes (fun r s => r = .ok (o.filter (·.safe), o.isSome) ∧ A s)
      (inspect n) s := by
  by_cases hsafe : ∀ f, o = some f → f.safe
  case pos =>
    have hfilter : o.filter (·.safe) = o := by
      cases o
      case none   => rfl
      case some f => simp [Option.filter, hsafe f rfl]
    refine Safe.handle (Q := fun r s => r = .ok (o, o.isSome) ∧ A s) ?_ ?_ (by simp)
    · refine Safe.bind (readOptionalSafeWindowsFile_quiet hs hi hf hsafe h) ?_ (by simp)
      rintro _ s ⟨hr, ha⟩
      obtain rfl := Except.ok.inj hr
      exact Safe.of_pure hs (fun s ha => ⟨rfl, ha⟩) ha
    · rintro _ s ⟨hr, ha⟩
      exact ⟨by rw [hr, hfilter], ha⟩
  case neg =>
    simp only [not_forall, Bool.not_eq_true] at hsafe
    obtain ⟨f, rfl, hbroken⟩ := hsafe
    have hread : Safe Consistent Interferes (fun r s => r = .error .unsafePath ∧ A s)
        (readSafeWindowsFile n) s := by
      refine Safe.bind (Q := fun r s => r = .ok (some f) ∧ A s) ?_ ?_ (by simp)
      · refine Safe.of_read hs hi (fun s ha s' hr => ?_) h
        exact ⟨by rw [hf s ha], hs.many hr ha⟩
      · rintro _ s ⟨hr, ha⟩
        obtain rfl := Except.ok.inj hr
        dsimp only
        rw [require, if_neg (by simp [hbroken])]
        exact Safe.of_raise hs (fun s ha => ⟨rfl, ha⟩) ha
    refine Safe.handle (Q := fun r s => r = .error .unsafePath ∧ A s) ?_ (by simp) ?_
    · refine Safe.bind (Q := fun r s => r = .error .unsafePath ∧ A s) ?_ (by simp) (by simp)
      refine Safe.handle (Q := fun r s => r = .error .unsafePath ∧ A s) ?_ (by simp) ?_
      · exact Safe.bind hread (by simp) (fun e s h => ⟨by simpa using h.left, h.right⟩)
      · rintro _ s ⟨hr, ha⟩
        obtain rfl := Except.error.inj hr
        exact Safe.of_raise hs (fun s ha => ⟨rfl, ha⟩) ha
    · rintro _ s ⟨hr, ha⟩
      obtain rfl := Except.error.inj hr
      rw [require_bind rfl]
      refine Safe.bind (Q := fun r s => r = .ok true ∧ A s) ?_ ?_ (by simp)
      · refine Safe.of_read hs hi (fun s ha s' hr => ?_) ha
        exact ⟨by simp [hf s ha], hs.many hr ha⟩
      · rintro _ s ⟨hr, ha⟩
        obtain rfl := Except.ok.inj hr
        exact Safe.of_pure hs (fun s ha => ⟨by simp [Option.filter, hbroken], ha⟩) ha

end Reading

section Target

variable {A : Disk → Prop} {K : File → Prop} {f : File} {s : Disk}

-- A snapshot of the target that was taken where `A` holds. It is current, or another program has
-- put a newer file at the target.
structure Glimpsed (A : Disk → Prop) (K : File → Prop) (f : File) (s : Disk) : Prop where
  state   : A s
  kind    : K f
  known   : f.inode < s.next
  current : s.files .target = some f ∨
    ∃ g, s.files .target = some g ∧ s.story.outside = some g ∧ f.inode < g.inode

-- Another program has put a file at the target.
structure Disturbed (A : Disk → Prop) (s : Disk) : Prop where
  state   : A s
  outside : s.story.outside.isSome

theorem Glimpsed.stable (hs : Stable Interferes A) : Stable Interferes (Glimpsed A K f) := by
  intro s s' h he
  have hs' := hs s s' h.state he
  obtain ⟨x, -, rfl⟩ := he
  refine ⟨hs', h.kind, Nat.lt_succ_of_lt h.known, .inr ⟨⟨s.next, x.fst, x.snd⟩, ?_, rfl, h.known⟩⟩
  simp [Disk.overwrite]

theorem Disturbed.stable (hs : Stable Interferes A) : Stable Interferes (Disturbed A) := by
  intro s s' h he
  refine ⟨hs s s' h.state he, ?_⟩
  obtain ⟨x, -, rfl⟩ := he
  rfl

omit [Codec] in
-- A snapshot is current as long as no other program puts a file at the target.
theorem Glimpsed.or_disturbed (h : Glimpsed A K f s) :
    s.files .target = some f ∨ Disturbed A s := by
  obtain hf | ⟨g, -, ho, -⟩ := h.current
  · exact .inl hf
  · exact .inr ⟨h.state, by simp [ho]⟩

def GlimpsedOrDisturbed (A : Disk → Prop) (K : File → Prop) {α : Type} (g : File → α)
    (r : Except Failure α) (s : Disk) : Prop :=
  (∃ f, r = .ok (g f) ∧ Glimpsed A K f s ∧ f.safe) ∨ (r = .error .unsafePath ∧ Disturbed A s)

theorem readSafeWindowsFile_target (hs : Stable Interferes A) (hi : ∀ s, A s → Consistent s)
    (hf : ∀ s, A s → ∃ f, s.files .target = some f ∧ K f ∧ f.inode < s.next ∧
      (s.story.outside = none → f.safe))
    (h : A s) :
    Safe Consistent Interferes (GlimpsedOrDisturbed A K id) (readSafeWindowsFile .target) s := by
  refine Safe.bind
    (Q := fun r s => ∃ f, r = .ok (some f) ∧ Glimpsed A K f s ∧ (f.safe ∨ Disturbed A s)) ?_ ?_ (by simp)
  · refine Safe.of_read hs hi (fun s ha s' hr => ?_) h
    obtain ⟨f, hfile, hk, hknown, hsafe⟩ := hf s ha
    refine ⟨f, by rw [hfile], (Glimpsed.stable hs).many hr ⟨ha, hk, hknown, .inl hfile⟩, ?_⟩
    cases ho : s.story.outside
    case none   => exact .inl (hsafe ho)
    case some g => exact .inr <| (Disturbed.stable hs).many hr ⟨ha, by simp [ho]⟩
  · rintro _ s ⟨f, hr, ha, hsafe⟩
    obtain rfl := Except.ok.inj hr
    dsimp only
    by_cases hfs : f.safe
    case neg =>
      rw [require, if_neg hfs]
      refine Safe.of_raise (Disturbed.stable hs) (fun s ha => .inr ⟨rfl, ha⟩) ?_
      exact hsafe.resolve_left hfs
    rw [require_bind hfs]
    refine Safe.bind
      (Q := fun r s => ∃ g, r = .ok g ∧ Glimpsed A K f s ∧ (g = some f ∨ Disturbed A s)) ?_ ?_ (by simp)
    · refine Safe.of_read (Glimpsed.stable hs) (fun s ha => hi s ha.state) (fun s ha s' hr => ?_) ha
      refine ⟨_, rfl, (Glimpsed.stable hs).many hr ha, ?_⟩
      exact ha.or_disturbed.imp_right fun hd => (Disturbed.stable hs).many hr hd
    · rintro g s ⟨_, hr, ha, hg⟩
      obtain rfl := Except.ok.inj hr
      by_cases hgf : g = some f
      case pos =>
        rw [require_bind hgf]
        exact Safe.of_pure (Glimpsed.stable hs) (fun s ha => .inl ⟨f, rfl, ha, hfs⟩) ha
      case neg =>
        rw [require, if_neg hgf]
        exact Safe.of_raise (Disturbed.stable hs) (fun s ha => .inr ⟨rfl, ha⟩) (hg.resolve_left hgf)

theorem readOptionalSafeWindowsFile_target (hs : Stable Interferes A) (hi : ∀ s, A s → Consistent s)
    (hf : ∀ s, A s → ∃ f, s.files .target = some f ∧ K f ∧ f.inode < s.next ∧
      (s.story.outside = none → f.safe))
    (h : A s) :
    Safe Consistent Interferes (GlimpsedOrDisturbed A K some) (readOptionalSafeWindowsFile .target) s := by
  refine Safe.handle (Q := GlimpsedOrDisturbed A K some) ?_ (fun _ _ h => h) ?_
  · refine Safe.bind (readSafeWindowsFile_target hs hi hf h) ?_ ?_
    · rintro f s (⟨_, hr, ha, hfs⟩ | ⟨hr, -⟩)
      · obtain rfl := Except.ok.inj hr
        exact Safe.of_pure (Glimpsed.stable hs) (fun s ha => .inl ⟨f, rfl, ha, hfs⟩) ha
      · cases hr
    · rintro e s (⟨_, hr, -⟩ | ⟨hr, ha⟩)
      · cases hr
      · exact .inr ⟨by simpa using hr, ha⟩
  · rintro e s (⟨_, hr, -⟩ | ⟨hr, ha⟩)
    · cases hr
    · obtain rfl := Except.error.inj hr
      exact Safe.of_raise (Disturbed.stable hs) (fun s ha => .inr ⟨rfl, ha⟩) ha

-- What is found at the target is what was there at some time, or nothing that can be read.
theorem inspect_target (hs : Stable Interferes A) (hi : ∀ s, A s → Consistent s)
    (hf : ∀ s, A s → ∃ f, s.files .target = some f ∧ K f ∧ f.inode < s.next ∧
      (s.story.outside = none → f.safe))
    (h : A s) :
    Safe Consistent Interferes (fun r s => ∃ t, r = .ok (t, true) ∧ A s ∧
      (s.story.outside = none → t = s.files .target) ∧ ∀ f, t = some f → K f) (inspect .target) s := by
  refine Safe.handle (Q := GlimpsedOrDisturbed A K fun f => (some f, true)) ?_ ?_ ?_
  · refine Safe.bind (readOptionalSafeWindowsFile_target hs hi hf h) ?_ ?_
    · rintro t s (⟨f, hr, ha, hfs⟩ | ⟨hr, -⟩)
      · obtain rfl := Except.ok.inj hr
        exact Safe.of_pure (Glimpsed.stable hs) (fun s ha => .inl ⟨f, rfl, ha, hfs⟩) ha
      · cases hr
    · rintro e s (⟨_, hr, -⟩ | ⟨hr, ha⟩)
      · cases hr
      · exact .inr ⟨by simpa using hr, ha⟩
  · rintro t s (⟨f, hr, ha, -⟩ | ⟨hr, -⟩)
    · refine ⟨some f, hr, ha.state, fun hn => ?_, fun g hg => ?_⟩
      · obtain hf | ⟨_, -, ho, -⟩ := ha.current
        · exact hf.symm
        · simp [hn] at ho
      · obtain rfl := Option.some.inj hg
        exact ha.kind
    · cases hr
  · rintro e s (⟨_, hr, -⟩ | ⟨hr, ha⟩)
    · cases hr
    · obtain rfl := Except.error.inj hr
      rw [require_bind rfl]
      have hs₂ : Stable Interferes (Disturbed A) := Disturbed.stable hs
      refine Safe.bind (Q := fun r s => r = .ok true ∧ Disturbed A s) ?_ ?_ (by simp)
      · refine Safe.of_read hs₂ (fun s ha => hi s ha.state) (fun s ha s' hr => ?_) ha
        obtain ⟨f, hfile, -⟩ := hf s ha.state
        exact ⟨by simp [hfile], hs₂.many hr ha⟩
      · rintro _ s ⟨hr, ha⟩
        obtain rfl := Except.ok.inj hr
        refine Safe.of_pure hs₂ (fun s ha => ⟨none, rfl, ha.state, fun hn => ?_, by simp⟩) ha
        have := ha.outside
        simp [hn] at this

end Target

section Unlinking

variable {A B : Disk → Prop} {n : Name} {f : File} {s : Disk}

theorem unlink_safe (hs : Stable Interferes A) (hi : ∀ s, A s → Consistent s) (hb : Stable Interferes B)
    (hf : ∀ s, A s → s.files n = some f) (hw : ∀ s, A s → B (s.put n none)) (h : A s) :
    Safe Consistent Interferes (fun r s => r = .ok () ∧ B s) (unlink n) s :=
  Safe.of_attempt hs hi (fun s ha => by simp [hf s ha]) hb hw (fun _ hb => ⟨rfl, hb⟩) h

theorem unlinkMatchingWindowsFile_safe {d : Descriptor} (hs : Stable Interferes A)
    (hi : ∀ s, A s → Consistent s) (hb : Stable Interferes B) (hf : ∀ s, A s → s.files n = some f)
    (hsafe : f.safe) (hd : f.descriptor = d) (hw : ∀ s, A s → B (s.put n none)) (h : A s) :
    Safe Consistent Interferes (fun r s => r = .ok () ∧ B s) (unlinkMatchingWindowsFile n d) s := by
  refine Safe.bind (readOptionalSafeWindowsFile_quiet hs hi hf (by simp [hsafe]) h) ?_ (by simp)
  rintro _ s ⟨hr, ha⟩
  obtain rfl := Except.ok.inj hr
  dsimp only
  rw [require_bind (publicationMatches_iff.mpr hd)]
  exact unlink_safe hs hi hb hf hw ha

theorem unlinkMatchingWindowsCandidate_safe {d : CandidateDescriptor} (hs : Stable Interferes A)
    (hi : ∀ s, A s → Consistent s) (hb : Stable Interferes B) (hf : ∀ s, A s → s.files n = some f)
    (hsafe : f.safe) (hd : candidateMatches (some f) d) (hw : ∀ s, A s → B (s.put n none)) (h : A s) :
    Safe Consistent Interferes (fun r s => r = .ok () ∧ B s) (unlinkMatchingWindowsCandidate n d) s := by
  refine Safe.bind (readOptionalSafeWindowsFile_quiet hs hi hf (by simp [hsafe]) h) ?_ (by simp)
  rintro _ s ⟨hr, ha⟩
  obtain rfl := Except.ok.inj hr
  dsimp only
  rw [require_bind hd]
  exact unlink_safe hs hi hb hf hw ha

end Unlinking

section Moves

variable {o c m f : File} {w : Bytes} {k : String} {id : Option Identity} {s : Disk} {n : Name}
  {staging candidate : Option File}

theorem Told.put {x : Option File} (h : Told o w s) (hx : ∀ f, x = some f → f.inode < s.next) :
    Told o w (s.put n x) where
  old     := h.old
  new     := h.new
  fresh   := h.fresh
  inodes n' f hf := by
    by_cases hn : n' = n
    · subst hn
      exact hx f (by simpa [Disk.put] using hf)
    · exact h.inodes n' f (by simpa [Disk.put, hn] using hf)
  safe    := h.safe
  foreign := h.foreign

theorem Told.drop (h : Told o w s) : Told o w (s.put n none) :=
  h.put (by simp)

-- What recovery has made of a publication, and what it says about it.
def Resolved (o : File) (w : Bytes) (d : Disposition) (s : Disk) : Prop :=
  ∃ k f, Settled o w k f s ∧ (s.story.outside = none → d ≠ .manualTarget ∧
    (d = .aborted → f.content = o.content) ∧ (d = .committed → f.content = w))

theorem Resolved.stable {d : Disposition} : Stable Interferes (Resolved o w d) := by
  rintro s s' ⟨k, f, h, -⟩ ⟨x, hx, rfl⟩
  exact ⟨k, _, h.overwrite, fun hn => by cases hn⟩

theorem Resolved.consistent {d : Disposition} (h : Resolved o w d s) : Consistent s := by
  obtain ⟨k, f, h, -⟩ := h
  exact (Sound.settled h).consistent

theorem Marked.drop (h : Marked o w k m none none s) : Settled o w k s.held (s.put .marker none) where
  told    := h.told.drop
  files   := by simp [h.files]
  bytes   := by
    intro hn
    have : s.held = o := by simp_all [Disk.held, h.told.old]
    exact ⟨this ▸ h.told.safe hn, .inl (by rw [this])⟩
  outside := by
    intro f hf
    simp_all [Disk.held]

theorem Unbacked.drop (h : Unbacked o w k m c s) (hc : IsCandidate o w c) :
    Settled o w k (s.story.outside.getD c) (s.put .marker none) where
  told    := h.told.drop
  files   := by simp [h.files]
  bytes   := by
    intro hn
    simp_all [hc.safe, hc.content]
  outside := by
    intro f hf
    simp_all

theorem Marked.dropCandidate (h : Marked o w k m staging candidate s) :
    Marked o w k m staging none (s.put (.candidate k) none) where
  told  := h.told.drop
  files := by
    rw [Disk.files_put, h.files]
    exact Layout.update_candidate ⟨k, some s.held, some m, staging, candidate, none⟩ none
  apart := by simp

theorem Marked.dropStaging (h : Marked o w k m staging candidate s) :
    Marked o w k m none candidate (s.put .staging none) where
  told  := h.told.drop
  files := by simp [h.files]
  apart := h.apart

theorem Staged.drop (h : Staged o w k staging s) : Settled o w k s.held (s.put .staging none) where
  told    := h.told.drop
  files   := by simp [h.files]
  bytes   := by
    intro hn
    have : s.held = o := by simp_all [Disk.held, h.told.old]
    exact ⟨this ▸ h.told.safe hn, .inl (by rw [this])⟩
  outside := by
    intro f hf
    simp_all [Disk.held]

theorem Swapped.dropBackup (h : Swapped o w k m c s) (hn : s.story.outside = none) :
    Unbacked o w k m c (s.put (.backup k) none) where
  told  := h.told.drop
  files := by
    rw [Disk.files_put, Disk.story_put, h.files, hn]
    exact Layout.update_backup ⟨k, some c, some m, none, none, some s.held⟩ none
  known := h.told.inodes .target c (by simp [h.files, Layout.files])
  apart := h.apart

theorem Overtaken.dropBackup (h : Overtaken o w k m c s) :
    Unbacked o w k m c (s.put (.backup k) none) where
  told  := h.told.drop
  files := by
    obtain ⟨f, hf⟩ := Option.isSome_iff_exists.mp h.outside
    have hheld : s.held = f := by simp [Disk.held, hf]
    rw [Disk.files_put, Disk.story_put, h.files, hheld, hf]
    exact Layout.update_backup ⟨k, some f, some m, none, none, some o⟩ none
  known := h.known
  apart := h.apart

-- The file of another program is put back where it was.
theorem Swapped.restore (h : Swapped o w k m c s) (hn : s.story.outside.isSome) :
    Unbacked o w k m c (s.rename (.backup k) .target) where
  told  := (h.told.put fun f hf => h.told.inodes _ f hf).drop
  files := by
    obtain ⟨f, hf⟩ := Option.isSome_iff_exists.mp hn
    have hheld : s.held = f := by simp [Disk.held, hf]
    have hb : s.files (.backup k) = some f := by simp [h.files, Layout.files, hheld]
    rw [Disk.files_rename, Disk.story_rename, hb, h.files, hheld, hf, Layout.update_target]
    exact Layout.update_backup ⟨k, some f, some m, none, none, some f⟩ none
  known := h.told.inodes .target c (by simp [h.files, Layout.files])
  apart := h.apart

end Moves

section Settling

variable {A : Disk → Prop} {o c m : File} {w : Bytes} {k : String} {id : Option Identity} {s : Disk}
  {staging candidate t : Option File} {d : Disposition}

-- Recovery comes to an end.
def Replayed (o : File) (w : Bytes) (r : Except Failure Disposition) (s : Disk) : Prop :=
  ∃ d, r = .ok d ∧ Resolved o w d s

-- The last step of every recovery: the marker goes.
theorem conclude_safe (hs : Stable Interferes A) (hi : ∀ s, A s → Consistent s)
    (hf : ∀ s, A s → s.files .marker = some m) (hm : m.safe)
    (hw : ∀ s, A s → Resolved o w d (s.put .marker none)) (h : A s) :
    Safe Consistent Interferes (Replayed o w)
      (do unlinkMatchingWindowsFile .marker m.descriptor; return d) s := by
  refine Safe.bind (unlinkMatchingWindowsFile_safe hs hi Resolved.stable hf hm rfl hw h) ?_ (by simp)
  rintro _ s ⟨-, hr⟩
  exact Safe.of_pure Resolved.stable (fun s hr => ⟨d, rfl, hr⟩) hr

-- What recovery finds as long as the target has not been replaced, and what it has found there.
structure Unreplaced (o : File) (w : Bytes) (k : String) (id : Option Identity) (m : File)
    (staging candidate t : Option File) (s : Disk) : Prop where
  marked  : Marked o w k m staging candidate s
  differs : candidate.isSome → candidateMatches s.story.outside (candidateDescriptor w id) = false
  current : s.story.outside = none → t = some o

theorem Unreplaced.stable (hm : IsMarker o w k id m)
    (hmatch : ∀ c, candidate = some c → candidateMatches (some c) (candidateDescriptor w id)) :
    Stable Interferes (Unreplaced o w k id m staging candidate t) := by
  rintro s s' h ⟨x, hx, rfl⟩
  refine ⟨h.marked.overwrite, h.marked.outside_differs hm hmatch hx, fun hn => ?_⟩
  cases hn

theorem Unreplaced.dropStaging (h : Unreplaced o w k id m staging candidate t s) :
    Unreplaced o w k id m none candidate t (s.put .staging none) :=
  ⟨h.marked.dropStaging, h.differs, h.current⟩

theorem Unreplaced.dropCandidate (h : Unreplaced o w k id m none candidate t s) :
    Unreplaced o w k id m none none t (s.put (.candidate k) none) :=
  ⟨h.marked.dropCandidate, by simp, h.current⟩

theorem Unreplaced.drop (h : Unreplaced o w k id m none none t s)
    (hd : t = some o → d ≠ .manualTarget ∧ d ≠ .committed) : Resolved o w d (s.put .marker none) := by
  refine ⟨k, _, h.marked.drop, fun hn => ?_⟩
  obtain ⟨hmanual, hcommitted⟩ := hd (h.current hn)
  have hheld : s.held = o := by
    have hn : s.story.outside = none := hn
    simp [Disk.held, hn, h.marked.told.old]
  exact ⟨hmanual, fun _ => by rw [hheld], fun hc => absurd hc hcommitted⟩

theorem settle_unreplaced (hm : IsMarker o w k id m) (hsafe : ∀ c, candidate = some c → c.safe)
    (hmatch : ∀ c, candidate = some c → candidateMatches (some c) (candidateDescriptor w id))
    (ht : ∀ f, t = some f → candidate.isSome →
      f.descriptor = o.descriptor ∨ candidateMatches (some f) (candidateDescriptor w id) = false)
    (h : Unreplaced o w k id m none candidate t s) :
    Safe Consistent Interferes (Replayed o w)
      (settle m.descriptor ⟨k, k, o.descriptor, candidateDescriptor w id⟩
        ⟨t, true, candidate, none, false⟩) s := by
  have hs (c' : Option File) (hc' : ∀ c, c' = some c → candidate = some c) :
      Stable Interferes (Unreplaced o w k id m none c' t) :=
    Unreplaced.stable hm fun c hc => hmatch c (hc' c hc)
  have hi (c' : Option File) (hc' : ∀ c, c' = some c → candidate = some c) :
      ∀ s, Unreplaced o w k id m none c' t s → Consistent s := fun s h => by
    refine (Sound.marked h.marked hm (by simp) ?_ ?_ h.differs).consistent
    · exact fun c hc => hsafe c (hc' c hc)
    · exact fun c hc => hmatch c (hc' c hc)
  have hnone : ∀ c, none = some c → candidate = some c := by simp
  have hfile (s : Disk) (h : Unreplaced o w k id m none none t s) : s.files .marker = some m := by
    simp [h.marked.files, Layout.files]
  -- Without a candidate only the marker is left.
  have hend (d : Disposition) (hd : t = some o → d ≠ .manualTarget ∧ d ≠ .committed) (s : Disk)
      (h : Unreplaced o w k id m none none t s) :=
    conclude_safe (hs none hnone) (hi none hnone) hfile hm.safe (fun _ h => h.drop hd) h
  have hcandidate (c : File) (hc : candidate = some c) :
      Safe Consistent Interferes (fun r s => r = .ok () ∧ Unreplaced o w k id m none none t s)
        (unlinkMatchingWindowsCandidate (.candidate k) (candidateDescriptor w id)) s := by
    subst hc
    refine unlinkMatchingWindowsCandidate_safe (hs _ fun _ h => h) (hi _ fun _ h => h)
      (hs none hnone) (fun s h => ?_) (hsafe c rfl) (hmatch c rfl) (fun _ h => h.dropCandidate) h
    simp [h.marked.files, Layout.files]
  by_cases hexp : publicationMatches t o.descriptor
  case pos =>
    simp only [settle, Findings.targetIsExpected, hexp, Bool.not_false, Bool.and_true, if_true]
    cases candidate
    case none   => exact hend .aborted (by simp) s h
    case some c =>
      refine Safe.bind (hcandidate c rfl) ?_ (by simp)
      rintro _ s ⟨-, h⟩
      exact hend .aborted (by simp) s h
  case neg =>
    have hto : t ≠ some o := by
      rintro rfl
      exact hexp (publicationMatches_iff.mpr rfl)
    have hexp : publicationMatches t o.descriptor = false := by simpa using hexp
    by_cases hcand : candidateMatches t (candidateDescriptor w id)
    case pos =>
      have : candidate = none := by
        by_contra hc
        obtain ⟨f, rfl⟩ : ∃ f, t = some f :=
          Option.ne_none_iff_exists'.mp fun h => by simp [h] at hcand
        obtain he | hne := ht f rfl (Option.isSome_iff_ne_none.mpr hc)
        · simp [publicationMatches_iff.mpr he] at hexp
        · simp [hne] at hcand
      subst this
      simp only [settle, Findings.targetIsExpected, Findings.targetIsCandidate,
        Findings.backupIsExpected, publicationMatches_none, hexp, hcand, Bool.not_false,
        Bool.and_true, Bool.and_false, Bool.false_eq_true, if_true, if_false]
      exact hend .committed (fun h => absurd h hto) s h
    case neg =>
      have hcand : candidateMatches t (candidateDescriptor w id) = false := by simpa using hcand
      cases candidate
      case none   =>
        simp only [settle, Findings.targetIsExpected, Findings.targetIsCandidate,
          Findings.targetIsManual, Findings.candidateIsCandidate, Findings.backupIsExpected,
          publicationMatches_none, candidateMatches_none, hexp, hcand, Bool.not_false,
          Bool.and_true, Bool.and_false, Bool.false_eq_true, if_true, if_false, Option.isNone_none]
        exact hend .manualTarget (fun h => absurd h hto) s h
      case some c =>
        simp only [settle, Findings.targetIsExpected, Findings.targetIsCandidate,
          Findings.targetIsManual, Findings.candidateIsCandidate, Findings.backupIsExpected,
          publicationMatches_none, hmatch c rfl, hexp, hcand, Bool.not_false,
          Bool.and_true, Bool.and_false, Bool.false_eq_true, if_true, if_false]
        refine Safe.bind (hcandidate c rfl) ?_ (by simp)
        rintro _ s ⟨-, h⟩
        exact hend .manualTarget (fun h => absurd h hto) s h

-- What recovery finds once the target has been replaced, and what it has found there.
structure Replaced (o : File) (w : Bytes) (k : String) (m c : File) (t : Option File) (s : Disk) :
    Prop where
  phase   : (Swapped o w k m c s ∧ s.story.outside = none) ∨ Overtaken o w k m c s
  current : s.story.outside = none → t = some c

theorem Replaced.stable (hm : IsMarker o w k id m) : Stable Interferes (Replaced o w k m c t) := by
  rintro s s' ⟨h, -⟩ ⟨x, hx, rfl⟩
  refine ⟨.inr ?_, fun hn => by cases hn⟩
  obtain ⟨h, -⟩ | h := h
  · exact h.overwrite hm hx
  · exact h.overwrite

theorem Replaced.consistent (hm : IsMarker o w k (some c.identity) m) (hc : IsCandidate o w c)
    (h : Replaced o w k m c t s) : Consistent s := by
  obtain ⟨h, -⟩ | h := h.phase
  · exact (Sound.swapped h hm hc).consistent
  · exact (Sound.overtaken h hm hc).consistent

theorem Replaced.files_marker (h : Replaced o w k m c t s) : s.files .marker = some m := by
  obtain ⟨h, -⟩ | h := h.phase <;> simp [h.files, Layout.files]

theorem Replaced.files_backup (h : Replaced o w k m c t s) : s.files (.backup k) = some o := by
  obtain ⟨h, hn⟩ | h := h.phase
  · simp [h.files, Layout.files, Disk.held, hn, h.told.old]
  · simp [h.files, Layout.files]

theorem Replaced.safe (h : Replaced o w k m c t s) : o.safe := by
  obtain ⟨h, hn⟩ | h := h.phase
  · exact h.told.safe hn
  · exact h.safe

-- There is nothing left but the target and the marker, and what has been found at the target.
structure Cleared (o : File) (w : Bytes) (k : String) (m c : File) (t : Option File) (s : Disk) :
    Prop where
  unbacked : Unbacked o w k m c s
  current  : s.story.outside = none → t = some c

theorem Cleared.stable : Stable Interferes (Cleared o w k m c t) := by
  rintro s s' h ⟨x, hx, rfl⟩
  exact ⟨h.unbacked.overwrite, fun hn => by cases hn⟩

theorem Replaced.dropBackup (h : Replaced o w k m c t s) :
    Cleared o w k m c t (s.put (.backup k) none) := by
  obtain ⟨hs, hn⟩ | ho := h.phase
  · exact ⟨hs.dropBackup hn, h.current⟩
  · exact ⟨ho.dropBackup, h.current⟩

theorem Cleared.drop (hc : IsCandidate o w c) (h : Cleared o w k m c t s)
    (hd : t = some c → d ≠ .manualTarget ∧ d ≠ .aborted) : Resolved o w d (s.put .marker none) := by
  refine ⟨k, _, h.unbacked.drop hc, fun hn => ?_⟩
  have hn : s.story.outside = none := hn
  obtain ⟨hmanual, haborted⟩ := hd (h.current hn)
  exact ⟨hmanual, fun ha => absurd ha haborted, fun _ => by simp [hn, hc.content]⟩

theorem conclude_cleared (hm : IsMarker o w k (some c.identity) m) (hc : IsCandidate o w c)
    (hd : t = some c → d ≠ .manualTarget ∧ d ≠ .aborted) (h : Cleared o w k m c t s) :
    Safe Consistent Interferes (Replayed o w)
      (do unlinkMatchingWindowsFile .marker m.descriptor; return d) s := by
  refine conclude_safe Cleared.stable (fun s h => ?_) (fun s h => ?_) hm.safe (fun s h => h.drop hc hd) h
  · exact (Sound.unbacked h.unbacked hm hc).consistent
  · simp [h.unbacked.files, Layout.files]

theorem IsCandidate.matches (hc : IsCandidate o w c) :
    candidateMatches (some c) (candidateDescriptor w (some c.identity)) :=
  candidateMatches_self hc.content (.inr rfl)

theorem IsCandidate.not_expected (hc : IsCandidate o w c) :
    publicationMatches (some c) o.descriptor = false := by
  simpa [publicationMatches] using descriptor_ne hc.apart

theorem settle_replaced (hm : IsMarker o w k (some c.identity) m) (hc : IsCandidate o w c)
    (ht : ∀ f, t = some f → f.descriptor ≠ o.descriptor) (h : Replaced o w k m c t s) :
    Safe Consistent Interferes (Replayed o w)
      (settle m.descriptor ⟨k, k, o.descriptor, candidateDescriptor w (some c.identity)⟩
        ⟨t, true, none, some o, true⟩) s := by
  have hexp : publicationMatches t o.descriptor = false := by
    cases t
    case none   => rfl
    case some f => simpa [publicationMatches] using ht f rfl
  have hbackup : Safe Consistent Interferes (fun r s => r = .ok () ∧ Cleared o w k m c t s)
      (unlinkMatchingWindowsFile (.backup k) o.descriptor) s :=
    unlinkMatchingWindowsFile_safe (Replaced.stable hm) (fun _ h => h.consistent hm hc) Cleared.stable
      (fun _ h => h.files_backup) h.safe rfl (fun _ h => h.dropBackup) h
  have hexpected : publicationMatches (some o) o.descriptor := publicationMatches_iff.mpr rfl
  by_cases hcand : candidateMatches t (candidateDescriptor w (some c.identity))
  case pos =>
    simp only [settle, Findings.targetIsExpected, Findings.targetIsCandidate,
      Findings.backupIsExpected, hexp, hcand, hexpected, Bool.and_true, Bool.false_and,
      Bool.false_eq_true, if_true, if_false]
    refine Safe.bind hbackup ?_ (by simp)
    rintro _ s ⟨-, h⟩
    exact conclude_cleared hm hc (by simp) h
  case neg =>
    have htc : t ≠ some c := by
      rintro rfl
      exact hcand hc.matches
    have hcand : candidateMatches t (candidateDescriptor w (some c.identity)) = false := by
      simpa using hcand
    simp only [settle, Findings.targetIsExpected, Findings.targetIsCandidate,
      Findings.targetIsManual, Findings.candidateIsCandidate, Findings.backupIsExpected,
      candidateMatches_none, hexp, hcand, hexpected, Bool.not_true, Bool.not_false, Bool.and_true,
      Bool.and_false, Bool.false_eq_true, if_true, if_false, Option.isNone_none]
    refine Safe.bind hbackup ?_ (by simp)
    rintro _ s ⟨-, h⟩
    exact conclude_cleared hm hc (fun h => absurd h htc) h

theorem settle_cleared (hm : IsMarker o w k (some c.identity) m) (hc : IsCandidate o w c)
    (h : Cleared o w k m c t s) :
    Safe Consistent Interferes (Replayed o w)
      (settle m.descriptor ⟨k, k, o.descriptor, candidateDescriptor w (some c.identity)⟩
        ⟨t, true, none, none, false⟩) s := by
  by_cases hexp : publicationMatches t o.descriptor
  case pos =>
    simp only [settle, Findings.targetIsExpected, hexp, Bool.not_false, Bool.and_true, if_true,
      Option.isSome_none, Bool.false_eq_true, if_false]
    refine conclude_cleared hm hc (fun he => ?_) h
    simp [he, hc.not_expected] at hexp
  case neg =>
    have hexp : publicationMatches t o.descriptor = false := by simpa using hexp
    by_cases hcand : candidateMatches t (candidateDescriptor w (some c.identity))
    case pos =>
      simp only [settle, Findings.targetIsExpected, Findings.targetIsCandidate,
        Findings.backupIsExpected, publicationMatches_none, hexp, hcand, Bool.not_false,
        Bool.and_true, Bool.and_false, Bool.false_eq_true, if_true, if_false]
      exact conclude_cleared hm hc (by simp) h
    case neg =>
      have htc : t ≠ some c := by
        rintro rfl
        exact hcand hc.matches
      have hcand : candidateMatches t (candidateDescriptor w (some c.identity)) = false := by
        simpa using hcand
      simp only [settle, Findings.targetIsExpected, Findings.targetIsCandidate,
        Findings.targetIsManual, Findings.candidateIsCandidate, Findings.backupIsExpected,
        publicationMatches_none, candidateMatches_none, hexp, hcand, Bool.not_false,
        Bool.and_true, Bool.and_false, Bool.false_eq_true, if_true, if_false, Option.isNone_none]
      exact conclude_cleared hm hc (fun h => absurd h htc) h

-- The candidate stands where another program had put a file: nobody interferes until that file is
-- back.
structure Displaced (o : File) (w : Bytes) (k : String) (m c : File) (f : File) (s : Disk) :
    Prop where
  swapped : Swapped o w k m c s
  outside : s.story.outside = some f

theorem Displaced.stable {f : File} (hm : IsMarker o w k id m) :
    Stable Interferes (Displaced o w k m c f) := by
  rintro s s' h ⟨x, hx, rfl⟩
  have hne := h.swapped.told.foreign f h.outside
  have hmarker := hm.readMarker (s := s) (by simp [h.swapped.files, Layout.files])
  simp [Disk.mayOverwrite, Disk.stacked, hmarker, h.swapped.files, Layout.files, Disk.held, h.outside,
    publicationMatches, hne] at hx

-- The file that was put back is there, and it is not the candidate.
def Restored (o : File) (w : Bytes) (k : String) (m c : File) (s : Disk) : Prop :=
  Unbacked o w k m c s ∧ s.story.outside.isSome

theorem Restored.stable : Stable Interferes (Restored o w k m c) := by
  rintro s s' h ⟨x, hx, rfl⟩
  exact ⟨h.left.overwrite, rfl⟩

theorem restoreTarget_safe {f : File} (hm : IsMarker o w k (some c.identity) m)
    (hc : IsCandidate o w c) (h : Displaced o w k m c f s) :
    Safe Consistent Interferes (Replayed o w) (restoreTarget m.descriptor
      ⟨k, k, o.descriptor, candidateDescriptor w (some c.identity)⟩) s := by
  have hconsistent (s : Disk) (h : Restored o w k m c s) : Consistent s :=
    (Sound.unbacked h.left hm hc).consistent
  refine Safe.bind (Q := fun r s => r = .ok () ∧ Restored o w k m c s) ?_ ?_ (by simp)
  · refine Safe.of_attempt (Displaced.stable hm) (fun s h => ?_) (fun s h => ?_) Restored.stable
      (fun s h => ?_) (fun s h => ⟨rfl, h⟩) h
    · exact (Sound.swapped h.swapped hm hc).consistent
    · simp [h.swapped.files, Layout.files]
    · exact ⟨h.swapped.restore (by simp [h.outside]), by simp [h.outside]⟩
  rintro _ s ⟨-, h⟩
  refine Safe.bind (inspect_target (K := fun f => f.inode ≠ c.inode) Restored.stable hconsistent
    (fun s h => ?_) h) ?_ (by simp)
  · obtain ⟨f, hf⟩ := Option.isSome_iff_exists.mp h.right
    have hfile : s.files .target = some f := by simp [h.left.files, Layout.files, hf]
    exact ⟨f, hfile, h.left.apart f hf, h.left.told.inodes _ f hfile, by simp [hf]⟩
  rintro _ s ⟨t, hr, h, -, ht⟩
  obtain rfl := Except.ok.inj hr
  have hne : candidateMatches t (candidateDescriptor w (some c.identity)) = false := by
    cases t
    case none   => rfl
    case some f => exact candidateMatches_of_inode_ne (ht f rfl)
  simp only [hne, Bool.not_true, Bool.or_false, Bool.false_eq_true, if_false]
  refine conclude_safe Restored.stable hconsistent (fun s h => ?_) hm.safe (fun s h => ?_) h
  · simp [h.left.files, Layout.files]
  · refine ⟨k, _, h.left.drop hc, fun hn => ?_⟩
    have hn : s.story.outside = none := hn
    exact absurd h.right (by simp [hn])

theorem settle_displaced {f : File} {b : Option File} (hm : IsMarker o w k (some c.identity) m)
    (hc : IsCandidate o w c) (hb : publicationMatches b o.descriptor = false)
    (h : Displaced o w k m c f s) :
    Safe Consistent Interferes (Replayed o w)
      (settle m.descriptor ⟨k, k, o.descriptor, candidateDescriptor w (some c.identity)⟩
        ⟨some c, true, none, b, true⟩) s := by
  simp only [settle, Findings.targetIsExpected, Findings.targetIsCandidate,
    Findings.backupIsExpected, hc.not_expected, hc.matches, hb, Bool.not_true, Bool.and_true,
    Bool.and_false, Bool.false_eq_true, if_true, if_false]
  rw [require_bind trivial]
  exact restoreTarget_safe hm hc h

end Settling

section Recovering

variable {o c m : File} {w : Bytes} {k : String} {id : Option Identity} {s : Disk}
  {candidate staging : Option File}

theorem Disk.held_of_none {o : File} {w : Bytes} (h : Told o w s) (hn : s.story.outside = none) :
    s.held = o := by
  simp [held, hn, h.old]

theorem resolve_unreplaced (hm : IsMarker o w k id m) (hsafe : ∀ c, candidate = some c → c.safe)
    (hmatch : ∀ c, candidate = some c → candidateMatches (some c) (candidateDescriptor w id))
    (h : Unreplaced o w k id m none candidate (some o) s) :
    Safe Consistent Interferes (Replayed o w)
      (resolve m ⟨k, k, o.descriptor, candidateDescriptor w id⟩) s := by
  have hconsistent (t : Option File) (s : Disk) (h : Unreplaced o w k id m none candidate t s) :
      Consistent s := (Sound.marked h.marked hm (by simp) hsafe hmatch h.differs).consistent
  have hs (t : Option File) : Stable Interferes (Unreplaced o w k id m none candidate t) :=
    Unreplaced.stable hm hmatch
  refine Safe.bind (inspect_target (hs _) (hconsistent _) (fun s h => ?_) h
    (K := fun f => candidate.isSome →
      f.descriptor = o.descriptor ∨ candidateMatches (some f) (candidateDescriptor w id) = false))
    ?_ (by simp)
  · have hfile : s.files .target = some s.held := by simp [h.marked.files, Layout.files]
    refine ⟨s.held, hfile, fun hc => ?_, h.marked.told.inodes _ _ hfile, fun hn => ?_⟩
    · cases hout : s.story.outside
      case none   => exact .inl (by rw [Disk.held_of_none h.marked.told hout])
      case some f => exact .inr (by simpa [Disk.held, hout] using h.differs hc)
    · rw [Disk.held_of_none h.marked.told hn]
      exact h.marked.told.safe hn
  rintro _ s ⟨t, hr, h, hcurrent, ht⟩
  obtain rfl := Except.ok.inj hr
  have h : Unreplaced o w k id m none candidate t s := by
    refine ⟨h.marked, h.differs, fun hn => ?_⟩
    rw [hcurrent hn, h.marked.files, ← Disk.held_of_none h.marked.told hn]
    rfl
  refine Safe.bind (readOptionalSafeWindowsFile_quiet (o := candidate) (hs t) (hconsistent t)
    (fun s h => by simp [h.marked.files, Layout.files]) hsafe h) ?_ (by simp)
  rintro _ s ⟨hr, h⟩
  obtain rfl := Except.ok.inj hr
  refine Safe.bind (inspect_quiet (o := none) (hs t) (hconsistent t)
    (fun s h => by simp [h.marked.files, Layout.files]) h) ?_ (by simp)
  rintro _ s ⟨hr, h⟩
  obtain rfl := Except.ok.inj hr
  exact settle_unreplaced hm hsafe hmatch ht h

theorem resolve_replaced (hm : IsMarker o w k (some c.identity) m) (hc : IsCandidate o w c)
    (h : Replaced o w k m c (some c) s) :
    Safe Consistent Interferes (Replayed o w)
      (resolve m ⟨k, k, o.descriptor, candidateDescriptor w (some c.identity)⟩) s := by
  have hconsistent (t : Option File) (s : Disk) (h : Replaced o w k m c t s) : Consistent s :=
    h.consistent hm hc
  have hs (t : Option File) : Stable Interferes (Replaced o w k m c t) := Replaced.stable hm
  refine Safe.bind (inspect_target (hs _) (hconsistent _) (fun s h => ?_) h
    (K := fun f => f.descriptor ≠ o.descriptor)) ?_ (by simp)
  · obtain ⟨h, hn⟩ | h := h.phase
    · have hfile : s.files .target = some c := by simp [h.files, Layout.files]
      exact ⟨c, hfile, descriptor_ne hc.apart, h.told.inodes _ c hfile, fun _ => hc.safe⟩
    · obtain ⟨f, hf⟩ := Option.isSome_iff_exists.mp h.outside
      have hfile : s.files .target = some f := by simp [h.files, Layout.files, Disk.held, hf]
      exact ⟨f, hfile, h.told.foreign f hf, h.told.inodes _ f hfile, by simp [hf]⟩
  rintro _ s ⟨t, hr, h, hcurrent, ht⟩
  obtain rfl := Except.ok.inj hr
  have h : Replaced o w k m c t s := by
    refine ⟨h.phase, fun hn => ?_⟩
    obtain ⟨h, -⟩ | h := h.phase
    · rw [hcurrent hn, h.files]
      rfl
    · exact absurd h.outside (by simp [hn])
  refine Safe.bind (readOptionalSafeWindowsFile_quiet (o := none) (hs t) (hconsistent t)
    (fun s h => ?_) (by simp) h) ?_ (by simp)
  · obtain ⟨h, -⟩ | h := h.phase <;> simp [h.files, Layout.files]
  rintro _ s ⟨hr, h⟩
  obtain rfl := Except.ok.inj hr
  refine Safe.bind (inspect_quiet (o := some o) (hs t) (hconsistent t)
    (fun s h => h.files_backup) h) ?_ (by simp)
  rintro _ s ⟨hr, h⟩
  obtain rfl := Except.ok.inj hr
  simp only [Option.filter, h.safe, if_true, Option.isSome_some]
  exact settle_replaced hm hc ht h

theorem resolve_cleared (hm : IsMarker o w k (some c.identity) m) (hc : IsCandidate o w c)
    (h : Cleared o w k m c (some c) s) :
    Safe Consistent Interferes (Replayed o w)
      (resolve m ⟨k, k, o.descriptor, candidateDescriptor w (some c.identity)⟩) s := by
  have hconsistent (t : Option File) (s : Disk) (h : Cleared o w k m c t s) : Consistent s :=
    (Sound.unbacked h.unbacked hm hc).consistent
  have hs (t : Option File) : Stable Interferes (Cleared o w k m c t) := Cleared.stable
  refine Safe.bind (inspect_target (hs _) (hconsistent _) (fun s h => ?_) h (K := fun _ => True))
    ?_ (by simp)
  · have hfile : s.files .target = some (s.story.outside.getD c) := by
      simp [h.unbacked.files, Layout.files]
    refine ⟨_, hfile, trivial, h.unbacked.told.inodes _ _ hfile, fun hn => ?_⟩
    simpa [hn] using hc.safe
  rintro _ s ⟨t, hr, h, hcurrent, -⟩
  obtain rfl := Except.ok.inj hr
  have h : Cleared o w k m c t s := by
    refine ⟨h.unbacked, fun hn => ?_⟩
    rw [hcurrent hn, h.unbacked.files]
    simp [Layout.files, hn]
  refine Safe.bind (readOptionalSafeWindowsFile_quiet (o := none) (hs t) (hconsistent t)
    (fun s h => by simp [h.unbacked.files, Layout.files]) (by simp) h) ?_ (by simp)
  rintro _ s ⟨hr, h⟩
  obtain rfl := Except.ok.inj hr
  refine Safe.bind (inspect_quiet (o := none) (hs t) (hconsistent t)
    (fun s h => by simp [h.unbacked.files, Layout.files]) h) ?_ (by simp)
  rintro _ s ⟨hr, h⟩
  obtain rfl := Except.ok.inj hr
  exact settle_cleared hm hc h

theorem resolve_displaced {f : File} (hm : IsMarker o w k (some c.identity) m)
    (hc : IsCandidate o w c) (h : Displaced o w k m c f s) :
    Safe Consistent Interferes (Replayed o w)
      (resolve m ⟨k, k, o.descriptor, candidateDescriptor w (some c.identity)⟩) s := by
  have hconsistent (s : Disk) (h : Displaced o w k m c f s) : Consistent s :=
    (Sound.swapped h.swapped hm hc).consistent
  have hs : Stable Interferes (Displaced o w k m c f) := Displaced.stable hm
  refine Safe.bind (inspect_quiet (o := some c) hs hconsistent
    (fun s h => by simp [h.swapped.files, Layout.files]) h) ?_ (by simp)
  rintro _ s ⟨hr, h⟩
  obtain rfl := Except.ok.inj hr
  refine Safe.bind (readOptionalSafeWindowsFile_quiet (o := none) hs hconsistent
    (fun s h => by simp [h.swapped.files, Layout.files]) (by simp) h) ?_ (by simp)
  rintro _ s ⟨hr, h⟩
  obtain rfl := Except.ok.inj hr
  refine Safe.bind (inspect_quiet (o := some f) hs hconsistent
    (fun s h => by simp [h.swapped.files, Layout.files, Disk.held, h.outside]) h) ?_ (by simp)
  rintro _ s ⟨hr, h⟩
  obtain rfl := Except.ok.inj hr
  simp only [Option.filter, hc.safe, if_true, Option.isSome_some]
  refine settle_displaced hm hc ?_ h
  have hne := h.swapped.told.foreign f h.outside
  split <;> simp [publicationMatches, hne]

theorem recover_settled (h : Resolved o w .none s) :
    Safe Consistent Interferes (Replayed o w) recoverWindowsPublication s := by
  have hs : Stable Interferes (Resolved o w .none) := Resolved.stable
  have hi (s : Disk) (h : Resolved o w .none s) : Consistent s := h.consistent
  have hfiles (s : Disk) (h : Resolved o w .none s) : s.files .marker = none ∧ s.files .staging = none := by
    obtain ⟨k, f, h, -⟩ := h
    simp [h.files, Layout.files]
  refine Safe.bind (readOptionalSafeWindowsFile_quiet (o := none) hs hi
    (fun s h => (hfiles s h).left) (by simp) h) ?_ (by simp)
  rintro _ s ⟨hr, h⟩
  obtain rfl := Except.ok.inj hr
  refine Safe.bind (readOptionalSafeWindowsFile_quiet (o := none) hs hi
    (fun s h => (hfiles s h).right) (by simp) h) ?_ (by simp)
  rintro _ s ⟨hr, h⟩
  obtain rfl := Except.ok.inj hr
  exact Safe.of_pure hs (fun s h => ⟨_, rfl, h⟩) h

theorem Staged.stable : Stable Interferes (Staged o w k staging) := by
  rintro s s' h ⟨x, -, rfl⟩
  exact h.overwrite

theorem recover_staged (hsafe : c.safe) (h : Staged o w k (some c) s) :
    Safe Consistent Interferes (Replayed o w) recoverWindowsPublication s := by
  have hi (s : Disk) (h : Staged o w k (some c) s) : Consistent s := (Sound.staged h hsafe).consistent
  refine Safe.bind (readOptionalSafeWindowsFile_quiet (o := none) Staged.stable hi
    (fun s h => by simp [h.files, Layout.files]) (by simp) h) ?_ (by simp)
  rintro _ s ⟨hr, h⟩
  obtain rfl := Except.ok.inj hr
  refine Safe.bind (readOptionalSafeWindowsFile_quiet (o := some c) Staged.stable hi
    (fun s h => by simp [h.files, Layout.files]) (by simp [hsafe]) h) ?_ (by simp)
  rintro _ s ⟨hr, h⟩
  obtain rfl := Except.ok.inj hr
  refine Safe.bind (unlink_safe (B := Resolved o w .aborted) Staged.stable hi Resolved.stable
    (fun s h => by simp [h.files, Layout.files]; rfl) (fun s h => ?_) h) ?_ (by simp)
  · refine ⟨k, _, h.drop, fun hn => ?_⟩
    exact ⟨by simp, fun _ => by rw [Disk.held_of_none h.told hn], by simp⟩
  rintro _ s ⟨-, h⟩
  exact Safe.of_pure Resolved.stable (fun s h => ⟨_, rfl, h⟩) h

-- A marker that is being staged is no matter.
theorem recover_marked (hm : IsMarker o w k id m) (hstaging : ∀ f, staging = some f → f.safe)
    (hsafe : ∀ c, candidate = some c → c.safe)
    (hmatch : ∀ c, candidate = some c → candidateMatches (some c) (candidateDescriptor w id))
    (h : Unreplaced o w k id m staging candidate (some o) s) :
    Safe Consistent Interferes (Replayed o w) recoverWindowsPublication s := by
  have hs (st : Option File) : Stable Interferes (Unreplaced o w k id m st candidate (some o)) :=
    Unreplaced.stable hm hmatch
  have hi (st : Option File) (hst : ∀ f, st = some f → f.safe) (s : Disk)
      (h : Unreplaced o w k id m st candidate (some o) s) : Consistent s :=
    (Sound.marked h.marked hm hst hsafe hmatch h.differs).consistent
  refine Safe.bind (readOptionalSafeWindowsFile_quiet (o := some m) (hs _) (hi _ hstaging)
    (fun s h => by simp [h.marked.files, Layout.files]) (by simp [hm.safe]) h) ?_ (by simp)
  rintro _ s ⟨hr, h⟩
  obtain rfl := Except.ok.inj hr
  refine Safe.bind (readOptionalSafeWindowsFile_quiet (o := staging) (hs _) (hi _ hstaging)
    (fun s h => by simp [h.marked.files, Layout.files]) hstaging h) ?_ (by simp)
  rintro staged s ⟨hr, h⟩
  obtain rfl := Except.ok.inj hr
  obtain _ | f := staged
  · simp only [Option.isSome_none, Bool.false_eq_true, if_false, hm.parse]
    exact resolve_unreplaced hm hsafe hmatch h
  · simp only [Option.isSome_some, if_true, hm.parse]
    refine Safe.bind (Q := fun r s => r = .ok () ∧ Unreplaced o w k id m none candidate (some o) s)
      ?_ ?_ (by simp)
    · refine Safe.bind (readOptionalSafeWindowsFile_quiet (o := some f) (hs _) (hi _ hstaging)
        (fun s h => by simp [h.marked.files, Layout.files]) hstaging h) ?_ (by simp)
      rintro _ s ⟨hr, h⟩
      obtain rfl := Except.ok.inj hr
      exact unlink_safe (hs _) (hi _ hstaging) (hs none)
        (fun s h => by simp [h.marked.files, Layout.files]; rfl) (fun s h => h.dropStaging) h
    rintro _ s ⟨-, h⟩
    exact resolve_unreplaced hm hsafe hmatch h

-- Once the marker has been read, and nothing is staged, what is left is to resolve the publication.
theorem recover_of_resolve {A : Disk → Prop} (hs : Stable Interferes A)
    (hi : ∀ s, A s → Consistent s) (hm : IsMarker o w k id m)
    (hf : ∀ s, A s → s.files .marker = some m ∧ s.files .staging = none)
    (hres : ∀ s, A s → Safe Consistent Interferes (Replayed o w)
      (resolve m ⟨k, k, o.descriptor, candidateDescriptor w id⟩) s) (h : A s) :
    Safe Consistent Interferes (Replayed o w) recoverWindowsPublication s := by
  refine Safe.bind (readOptionalSafeWindowsFile_quiet (o := some m) hs hi
    (fun s h => (hf s h).left) (by simp [hm.safe]) h) ?_ (by simp)
  rintro _ s ⟨hr, h⟩
  obtain rfl := Except.ok.inj hr
  refine Safe.bind (readOptionalSafeWindowsFile_quiet (o := none) hs hi
    (fun s h => (hf s h).right) (by simp) h) ?_ (by simp)
  rintro _ s ⟨hr, h⟩
  obtain rfl := Except.ok.inj hr
  simp only [Option.isSome_none, Bool.false_eq_true, if_false, hm.parse]
  exact hres s h

theorem recover_swapped (hm : IsMarker o w k (some c.identity) m) (hc : IsCandidate o w c)
    (h : Swapped o w k m c s) :
    Safe Consistent Interferes (Replayed o w) recoverWindowsPublication s := by
  cases hout : s.story.outside
  case none   =>
    refine recover_of_resolve (Replaced.stable hm) (fun s h => h.consistent hm hc) hm
      (fun s h => ⟨h.files_marker, ?_⟩) (fun s h => resolve_replaced hm hc h)
      ⟨.inl ⟨h, hout⟩, fun _ => rfl⟩
    obtain ⟨h, -⟩ | h := h.phase <;> simp [h.files, Layout.files]
  case some f =>
    refine recover_of_resolve (Displaced.stable hm) (fun s h => ?_) hm (fun s h => ?_)
      (fun s h => resolve_displaced hm hc h) ⟨h, hout⟩
    · exact (Sound.swapped h.swapped hm hc).consistent
    · simp [h.swapped.files, Layout.files]

theorem recover_overtaken (hm : IsMarker o w k (some c.identity) m) (hc : IsCandidate o w c)
    (h : Overtaken o w k m c s) :
    Safe Consistent Interferes (Replayed o w) recoverWindowsPublication s := by
  refine recover_of_resolve (Replaced.stable hm) (fun s h => h.consistent hm hc) hm
    (fun s h => ⟨h.files_marker, ?_⟩) (fun s h => resolve_replaced hm hc h) ⟨.inr h, fun _ => rfl⟩
  obtain ⟨h, -⟩ | h := h.phase <;> simp [h.files, Layout.files]

theorem recover_unbacked (hm : IsMarker o w k (some c.identity) m) (hc : IsCandidate o w c)
    (h : Unbacked o w k m c s) :
    Safe Consistent Interferes (Replayed o w) recoverWindowsPublication s := by
  refine recover_of_resolve Cleared.stable (fun s h => ?_) hm (fun s h => ?_)
    (fun s h => resolve_cleared hm hc h) ⟨h, fun _ => rfl⟩
  · exact (Sound.unbacked h.unbacked hm hc).consistent
  · simp [h.unbacked.files, Layout.files]

-- The specification of recovery: from every sound state it comes to an end, for the story of that state.
theorem recover_sound (h : Sound s) :
    Safe Consistent Interferes (Replayed s.story.old s.story.new) recoverWindowsPublication s := by
  cases h
  case settled h =>
    rw [h.told.old, h.told.new]
    exact recover_settled ⟨_, _, h, by simp⟩
  case staged h hsafe =>
    rw [h.told.old, h.told.new]
    exact recover_staged hsafe h
  case marked h hm hstaging hsafe hmatch hdiff =>
    rw [h.told.old, h.told.new]
    exact recover_marked hm hstaging hsafe hmatch ⟨h, hdiff, fun _ => rfl⟩
  case swapped h hm hc =>
    rw [h.told.old, h.told.new]
    exact recover_swapped hm hc h
  case overtaken h hm hc =>
    rw [h.told.old, h.told.new]
    exact recover_overtaken hm hc h
  case unbacked h hm hc =>
    rw [h.told.old, h.told.new]
    exact recover_unbacked hm hc h

end Recovering

end Config
