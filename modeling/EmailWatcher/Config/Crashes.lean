import EmailWatcher.Config.Replay

-- A publication may be cut short wherever the process may die.
namespace Config

open Script

variable [Codec]

section Writing

variable {A : Option File → Disk → Prop} {n : Name} {content : Bytes} {f : File} {s : Disk}

-- A file of which a part has been written.
structure Begun (content : Bytes) (f : File) : Prop where
  safe   : f.safe
  begins : f.content <+: content

-- What the writing of a file asks of the assertion that holds while it is there.
structure Writable (A : Option File → Disk → Prop) (n : Name) (content : Bytes) : Prop where
  stable     : ∀ x, Stable Interferes (A x)
  consistent : ∀ x s, (∀ f, x = some f → Begun content f) → A x s → Consistent s
  files      : ∀ x s, A x s → s.files n = x
  create     : ∀ s, A none s → A (some ⟨s.next, true, []⟩) (s.create n)
  append     : ∀ f s bytes, A (some f) s →
    A (some { f with content := f.content ++ bytes }) (s.append n bytes)

theorem append_safe {bytes : Bytes} (hw : Writable A n content) (hb : Begun content f)
    (h : A (some f) s) :
    Safe Consistent Interferes
      (fun r s => r = .ok () ∧ A (some { f with content := f.content ++ bytes }) s)
      (append n bytes) s := by
  refine Safe.of_attempt (hw.stable _) (fun s h => ?_) (fun s h => ?_) (hw.stable _)
    (fun s h => hw.append f s bytes h) (fun s h => ⟨rfl, h⟩) h
  · exact hw.consistent _ s (by simpa using hb) h
  · simp [hw.files _ s h]

theorem writeAll_safe {sizes : List Nat} {rest : Bytes} (hw : Writable A n content) (hsafe : f.safe)
    (hrest : f.content ++ rest = content) (h : A (some f) s) :
    Safe Consistent Interferes (fun r s => r = .ok () ∧ A (some { f with content := content }) s)
      (writeAll n sizes rest) s := by
  induction sizes generalizing f rest s
  all_goals
    have hb : Begun content f := ⟨hsafe, ⟨rest, hrest⟩⟩
    have hdone (hr : rest = []) : ({ f with content := content } : File) = f := by
      rw [← hrest, hr, List.append_nil]
  case nil =>
    rw [writeAll]
    split
    case isTrue hr =>
      rw [hdone hr]
      exact Safe.of_pure (hw.stable _) (fun s h => ⟨rfl, h⟩) h
    case isFalse =>
      rw [← hrest]
      exact append_safe (hrest ▸ hw) (hrest ▸ hb) h
  case cons k ks ih =>
    rw [writeAll]
    split
    case isTrue hr =>
      rw [hdone hr]
      exact Safe.of_pure (hw.stable _) (fun s h => ⟨rfl, h⟩) h
    case isFalse =>
      refine Safe.bind (append_safe hw hb h) ?_ (by simp)
      rintro _ s ⟨-, h⟩
      refine ih (f := { f with content := f.content ++ rest.take (k + 1) }) hsafe ?_ h
      simp [List.append_assoc, hrest]

-- A file that is written as a whole is there afterwards, and can be read.
theorem writePrivateWindowsFile_safe {sizes : List Nat} (hw : Writable A n content) (h : A none s) :
    Safe Consistent Interferes
      (fun r s => ∃ f, r = .ok f ∧ f.safe ∧ f.content = content ∧ A (some f) s)
      (writePrivateWindowsFile n sizes content) s := by
  refine Safe.bind (Q := fun r s => r = .ok () ∧ ∃ f : File, f.safe ∧ f.content = [] ∧ A (some f) s)
    ?_ ?_ (by simp)
  · refine Safe.of_attempt (B := fun s => ∃ f : File, f.safe ∧ f.content = [] ∧ A (some f) s)
      (hw.stable none) (fun s h => hw.consistent none s (by simp) h) (fun s h => ?_) ?_
      (fun s h => ⟨⟨s.next, true, []⟩, rfl, rfl, hw.create s h⟩) (fun s h => ⟨rfl, h⟩) h
    · simp [hw.files none s h]
    · rintro s s' ⟨f, hf, hc, h⟩ he
      exact ⟨f, hf, hc, hw.stable _ s s' h he⟩
  rintro _ s ⟨-, f, hsafe, hempty, h⟩
  refine Safe.bind (writeAll_safe hw hsafe (by simp [hempty]) h) ?_ (by simp)
  rintro _ s ⟨-, h⟩
  obtain ⟨g, hg, hsafe, hcontent⟩ : ∃ g : File, { f with content := content } = g ∧ g.safe ∧
    g.content = content := ⟨_, rfl, hsafe, rfl⟩
  rw [hg] at h
  have hbegun : Begun content g := ⟨hsafe, hcontent ▸ List.prefix_rfl⟩
  refine Safe.bind (readSafeWindowsFile_quiet (hw.stable _) (fun s h => ?_) (fun s h => hw.files _ s h)
    hsafe h) ?_ (by simp)
  · exact hw.consistent _ s (by simpa using hbegun) h
  rintro _ s ⟨hr, h⟩
  obtain rfl := Except.ok.inj hr
  rw [require_bind hcontent]
  exact Safe.of_pure (hw.stable _) (fun s h => ⟨_, rfl, hsafe, hcontent, h⟩) h

end Writing

section Publishing

variable {o c m f : File} {w : Bytes} {k : String} {id : Option Identity} {s : Disk}
  {staging candidate : Option File} {p : Publication}

theorem Told.create (h : Told o w s) {n : Name} : Told o w (s.create n) where
  old     := h.old
  new     := h.new
  fresh   := Nat.lt_succ_of_lt h.fresh
  inodes n' f hf := by
    by_cases hn : n' = n
    · subst hn
      obtain rfl : (⟨s.next, true, []⟩ : File) = f := by simpa using hf
      exact Nat.lt_succ_self _
    · exact Nat.lt_succ_of_lt <| h.inodes n' f (by simpa [hn] using hf)
  safe    := h.safe
  foreign := h.foreign

theorem Told.append (h : Told o w s) {n : Name} {bytes : Bytes} : Told o w (s.append n bytes) := by
  refine h.put fun f hf => ?_
  obtain ⟨g, hg, rfl⟩ := Option.map_eq_some_iff.mp hf
  exact h.inodes n g hg

theorem Told.rename (h : Told o w s) {n n' : Name} : Told o w (s.rename n n') :=
  (h.put fun f hf => h.inodes _ f hf).drop

theorem Resolved.sound {d : Disposition} (h : Resolved o w d s) : Sound s := by
  obtain ⟨k, f, h, -⟩ := h
  exact .settled h

-- Nothing is staged any more.
theorem Staged.settled (h : Staged o w k none s) : Settled o w k s.held s where
  told    := h.told
  files   := h.files
  bytes   := by
    intro hn
    rw [Disk.held_of_none h.told hn]
    exact ⟨h.told.safe hn, .inl rfl⟩
  outside := by
    intro f hf
    simp [Disk.held, hf]

theorem Staged.writable {content : Bytes} : Writable (Staged o w k) .staging content where
  stable _        := Staged.stable
  consistent x s hx h := by
    obtain _ | f := x
    · exact (Sound.settled h.settled).consistent
    · exact (Sound.staged h (hx f rfl).safe).consistent
  files x s h     := by simp [h.files, Layout.files]
  create s h      := ⟨h.told.create, by simp [h.files]⟩
  append f s bytes h := by
    refine ⟨h.told.append, ?_⟩
    have hf : s.files .staging = some f := by simp [h.files, Layout.files]
    simp [hf, h.files]

-- As long as the candidate is being written, the process may not die unless it has just been
-- finished, and no other file with the same bytes is at the target.
theorem Marked.consistent (hm : IsMarker o w k id m) (hstaging : ∀ f, staging = some f → f.safe)
    (hid : id = none ∨ ∃ c, candidate = some c ∧ c.content = w ∧ id = some c.identity)
    (hc : ∀ c, candidate = some c → Begun w c) (h : Marked o w k m staging candidate s) :
    Consistent s := by
  refine ⟨fun f hf => ⟨.target, by simp [h.files, Layout.files, Disk.held, hf]⟩, fun hdie => ?_⟩
  have hmarker := hm.readMarker (s := s) (by simp [h.files, Layout.files])
  have htarget : s.files .target = some s.held := by simp [h.files, Layout.files]
  have hcandidate : s.files (.candidate k) = candidate := by simp [h.files, Layout.files]
  simp only [Disk.mayDie, Disk.torn, Disk.twin, hmarker, htarget, hcandidate, Option.any_some,
    Bool.and_eq_true, Bool.not_eq_true'] at hdie
  obtain ⟨⟨-, htorn⟩, htwin⟩ := hdie
  have hmatch (c : File) (he : candidate = some c) :
      candidateMatches (some c) (candidateDescriptor w id) := by
    subst he
    simpa using htorn
  refine .marked h hm hstaging (fun c he => (hc c he).safe) hmatch fun hsome => ?_
  obtain ⟨c, rfl⟩ := Option.isSome_iff_exists.mp hsome
  cases hout : s.story.outside
  case none   => rfl
  case some f =>
    obtain rfl | ⟨_, he, -, rfl⟩ := hid
    · have hself := hmatch c rfl
      have hforeign : publicationMatches (some f) o.descriptor = false := by
        rw [← Bool.not_eq_true]
        exact fun he => h.told.foreign f hout (publicationMatches_iff.mp he)
      simp only [candidateDescriptor] at htwin hself ⊢
      simpa [hself, hforeign, Disk.held, hout] using htwin
    · obtain rfl := Option.some.inj he
      exact candidateMatches_of_inode_ne ((h.apart c rfl).right f hout)

theorem Marked.stable : Stable Interferes (Marked o w k m staging candidate) := by
  rintro s s' h ⟨x, -, rfl⟩
  exact h.overwrite

-- The candidate is written while the marker does not name its identity.
theorem Marked.writable_candidate (hm : IsMarker o w k none m) :
    Writable (Marked o w k m none) (.candidate k) w where
  stable _        := Marked.stable
  consistent x s hx h := Marked.consistent hm (by simp) (.inl rfl) hx h
  files x s h     := by simp [h.files, Layout.files]
  create s h      := by
    refine ⟨h.told.create, ?_, ?_⟩
    · rw [Disk.files_create, h.files]
      exact Layout.update_candidate ⟨k, some s.held, some m, none, none, none⟩ _
    · rintro c he
      obtain rfl : (⟨s.next, true, []⟩ : File) = c := by simpa using he
      refine ⟨Nat.ne_of_gt h.told.fresh, fun f hf => ?_⟩
      have hf : s.files .target = some f := by
        have hf : s.story.outside = some f := hf
        simp [h.files, Layout.files, Disk.held, hf]
      exact Nat.ne_of_lt (h.told.inodes _ f hf)
  append f s bytes h := by
    have hf : s.files (.candidate k) = some f := by simp [h.files, Layout.files]
    refine ⟨h.told.append, ?_, ?_⟩
    · rw [Disk.files_append, hf, h.files]
      exact Layout.update_candidate ⟨k, some s.held, some m, none, some f, none⟩ _
    · rintro c he
      obtain rfl : ({ f with content := f.content ++ bytes } : File) = c := by simpa using he
      exact h.apart f rfl

-- The marker that names the identity of the candidate is staged beside it.
theorem Marked.writable_staging {b : Bytes} (hm : IsMarker o w k none m)
    (hc : Begun w c) : Writable (Marked o w k m · (some c)) .staging b where
  stable _        := Marked.stable
  consistent x s hx h := by
    refine Marked.consistent hm (fun f hf => (hx f hf).safe) (.inl rfl) (fun c' he => ?_) h
    obtain rfl := Option.some.inj he
    exact hc
  files x s h     := by simp [h.files, Layout.files]
  create s h      := ⟨h.told.create, by simp [h.files], h.apart⟩
  append f s bytes h := by
    have hf : s.files .staging = some f := by simp [h.files, Layout.files]
    exact ⟨h.told.append, by simp [hf, h.files], h.apart⟩

-- A staged marker is moved to where it is looked for.
theorem moveMarker_safe {A B : Disk → Prop} (hs : Stable Interferes A) (hi : ∀ s, A s → Consistent s)
    (hb : Stable Interferes B) (hib : ∀ s, B s → Consistent s)
    (hf : ∀ s, A s → s.files .staging = some m) (hfb : ∀ s, B s → s.files .marker = some m)
    (hm : m.safe) (hw : ∀ s, A s → B (s.rename .staging .marker)) (h : A s) :
    Safe Consistent Interferes (fun r s => r = .ok () ∧ B s) (moveMarker m) s := by
  refine Safe.bind (Q := fun r s => r = .ok () ∧ B s) ?_ ?_ (by simp)
  · exact Safe.of_attempt hs hi (fun s h => by simp [hf s h]) hb hw (fun s h => ⟨rfl, h⟩) h
  rintro _ s ⟨-, h⟩
  refine Safe.bind (readSafeWindowsFile_quiet hb hib hfb hm h) ?_ (by simp)
  rintro _ s ⟨hr, h⟩
  obtain rfl := Except.ok.inj hr
  rw [require, if_pos (publicationMatches_iff.mpr rfl)]
  exact Safe.of_pure hb (fun s h => ⟨rfl, h⟩) h

theorem Staged.moveMarker (h : Staged o w k (some m) s) :
    Marked o w k m none none (s.rename .staging .marker) where
  told  := h.told.rename
  files := by
    have hf : s.files .staging = some m := by simp [h.files, Layout.files]
    simp [hf, h.files]
  apart := by simp

theorem Marked.moveMarker (h : Marked o w k m (some f) candidate s) :
    Marked o w k f none candidate (s.rename .staging .marker) where
  told  := h.told.rename
  files := by
    have hf : s.files .staging = some f := by simp [h.files, Layout.files]
    simp [hf, h.files]
  apart := h.apart

-- Between the two renames nothing is at the target.
structure Split (o : File) (w : Bytes) (k : String) (m c : File) (s : Disk) : Prop where
  told  : Told o w s
  files : s.files = Layout.files ⟨k, none, some m, none, some c, some s.held⟩
  apart : c.inode ≠ o.inode ∧ ∀ f, s.story.outside = some f → f.inode ≠ c.inode

theorem Split.stable : Stable Interferes (Split o w k m c) := by
  rintro s s' h ⟨x, hx, rfl⟩
  simp [Disk.mayOverwrite, h.files, Layout.files] at hx

theorem Split.consistent (h : Split o w k m c s) : Consistent s := by
  refine ⟨fun f hf => ⟨.backup k, by simp [h.files, Layout.files, Disk.held, hf]⟩, fun hdie => ?_⟩
  simp [Disk.mayDie, h.files, Layout.files] at hdie

theorem Marked.split (h : Marked o w k m none (some c) s) :
    Split o w k m c (s.rename .target (.backup k)) where
  told  := h.told.rename
  files := by
    have hf : s.files .target = some s.held := by simp [h.files, Layout.files]
    have hb := Layout.update_backup ⟨k, some s.held, some m, none, some c, none⟩ (some s.held)
    rw [Disk.files_rename, hf, h.files]
    dsimp only at hb
    rw [hb, Layout.update_target]
    rfl
  apart := h.apart c rfl

theorem Split.swap (h : Split o w k m c s) : Swapped o w k m c (s.rename (.candidate k) .target) where
  told  := h.told.rename
  files := by
    have hf : s.files (.candidate k) = some c := by simp [h.files, Layout.files]
    rw [Disk.files_rename, hf, h.files, Layout.update_target]
    exact Layout.update_candidate ⟨k, some c, some m, none, some c, some s.held⟩ none
  apart := h.apart.right

theorem windowsReplaceFile_safe (hm : IsMarker o w k (some c.identity) m) (hc : IsCandidate o w c)
    (h : Marked o w k m none (some c) s) :
    Safe Consistent Interferes (fun r s => r = .ok () ∧ Sound s)
      (windowsReplaceFile .target (.candidate k) (.backup k)) s := by
  refine Safe.bind (Q := fun r s => r = .ok () ∧ Split o w k m c s) ?_ ?_ (by simp)
  · refine Safe.of_attempt Marked.stable (fun s h => ?_) (fun s h => ?_) Split.stable
      (fun s h => h.split) (fun s h => ⟨rfl, h⟩) h
    · refine Marked.consistent hm (by simp) (.inr ⟨c, rfl, hc.content, rfl⟩) (fun c' he => ?_) h
      obtain rfl := Option.some.inj he
      exact ⟨hc.safe, hc.content ▸ List.prefix_rfl⟩
    · simp [h.files, Layout.files]
  rintro _ s ⟨-, h⟩
  refine Safe.of_attempt Split.stable (fun s h => h.consistent) (fun s h => ?_) Sound.stable
    (fun s h => .swapped h.swap hm hc) (fun s h => ⟨rfl, h⟩) h
  simp [h.files, Layout.files]

-- What is left to do once the first marker has been staged
theorem publish_safe (hd : o.descriptor = p.source.descriptor) (hsafe : m.safe)
    (hcontent : m.content = Codec.markerBytes (p.marker none))
    (h : Staged o p.content p.token (some m) s) :
    Safe Consistent Interferes (fun _ s => Sound s) (publish p m) s := by
  have hmarker (f : File) (id : Option Identity) (hf : f.safe)
      (hfc : f.content = Codec.markerBytes (p.marker id)) : IsMarker o p.content p.token id f :=
    ⟨hf, by rw [hfc, Codec.parse_markerBytes, hd]; rfl⟩
  have hm := hmarker m none hsafe hcontent
  have hwrite := Marked.writable_candidate hm
  refine Safe.bind (moveMarker_safe (B := Marked o p.content p.token m none none) Staged.stable
    (fun s h => (Sound.staged h hsafe).consistent) Marked.stable (fun s h => ?_) (fun s h => ?_)
    (fun s h => ?_) hsafe (fun s h => h.moveMarker) h) ?_ (by simp)
  · exact Marked.consistent hm (by simp) (.inl rfl) (by simp) h
  · simp [h.files, Layout.files]
  · simp [h.files, Layout.files]
  rintro _ s ⟨-, h⟩
  refine Safe.bind (writePrivateWindowsFile_safe hwrite h) ?_ (by simp)
  rintro _ s ⟨c, hr, hcsafe, hccontent, h⟩
  obtain rfl := Except.ok.inj hr
  rename_i c
  have hbegun : Begun p.content c := ⟨hcsafe, hccontent ▸ List.prefix_rfl⟩
  have hcandidate : IsCandidate o p.content c := ⟨hcsafe, hccontent, (h.apart c rfl).left⟩
  rw [require_bind (candidateMatches_self hccontent (.inl rfl))]
  refine Safe.bind (writePrivateWindowsFile_safe (Marked.writable_staging hm hbegun) h) ?_ (by simp)
  rintro _ s ⟨m', hr, hm'safe, hm'content, h⟩
  obtain rfl := Except.ok.inj hr
  rename_i m'
  have hm' := hmarker m' (some c.identity) hm'safe hm'content
  have hready (s : Disk) (h : Marked o p.content p.token m' none (some c) s) : Consistent s := by
    refine Marked.consistent hm' (by simp) (.inr ⟨c, rfl, hccontent, rfl⟩) (fun c' he => ?_) h
    obtain rfl := Option.some.inj he
    exact hbegun
  refine Safe.bind (moveMarker_safe (B := Marked o p.content p.token m' none (some c)) Marked.stable
    (fun s h => ?_) Marked.stable hready (fun s h => ?_) (fun s h => ?_) hm'safe
    (fun s h => h.moveMarker) h) ?_ (by simp)
  · exact (Marked.writable_staging (b := m'.content) hm hbegun).consistent _ s
      (by simpa using ⟨hm'safe, List.prefix_rfl⟩) h
  · simp [h.files, Layout.files]
  · simp [h.files, Layout.files]
  rintro _ s ⟨-, h⟩
  refine Safe.bind (windowsReplaceFile_safe hm' hcandidate h) ?_ (by simp)
  rintro _ s ⟨-, h⟩
  refine Safe.bind (recover_sound h) ?_ ?_
  · rintro d s ⟨_, -, h⟩
    have hs : Stable Interferes Sound := Sound.stable
    have h := h.sound
    cases d
    case committed => exact Safe.of_pure hs (fun _ h => h) h
    all_goals exact Safe.of_raise hs (fun _ h => h) h
  · rintro e s ⟨_, hr, -⟩
    cases hr

theorem Replayed.sound {r : Except Failure Disposition} (h : Replayed o w r s) : Sound s := by
  obtain ⟨d, -, h⟩ := h
  exact h.sound

-- Whatever has failed, a sound state is left sound.
theorem recoverFrom_safe {e : Failure} (h : Sound s) :
    Safe Consistent Interferes (fun _ s => Sound s) (recoverFrom e) s := by
  have hs : Stable Interferes Sound := Sound.stable
  rw [recoverFrom]
  split
  case isTrue  => exact Safe.of_raise hs (fun _ h => h) h
  case isFalse =>
    refine Safe.bind (Q := Replayed s.story.old s.story.new) ?_ ?_ (fun _ _ h => h.sound)
    · refine Safe.handle (recover_sound h) (fun _ _ h => h) ?_
      rintro _ _ ⟨_, hr, -⟩
      cases hr
    · rintro d s h
      replace h := h.sound
      cases d
      case committed => exact Safe.of_pure hs (fun _ h => h) h
      all_goals exact Safe.of_raise hs (fun _ h => h) h

-- The target is what the publication is made from, unless another program has put a file there since.
structure Verified (o : File) (w : Bytes) (source : File) (s : Disk) : Prop where
  settled : ∃ k f, Settled o w k f s ∧ (f.descriptor = source.descriptor → f.safe) ∧
    (s.story.outside = none → f.descriptor = source.descriptor)
  known   : source.inode < s.next

theorem Verified.stable {source : File} : Stable Interferes (Verified o w source) := by
  rintro s s' ⟨⟨k, f, h, -⟩, hknown⟩ ⟨x, -, rfl⟩
  refine ⟨⟨k, _, h.overwrite, fun he => ?_, fun hn => by cases hn⟩, Nat.lt_succ_of_lt hknown⟩
  exact absurd he (descriptor_ne (Nat.ne_of_gt hknown))

theorem Verified.sound {source : File} (h : Verified o w source s) : Sound s := by
  obtain ⟨k, f, h, -⟩ := h.settled
  exact .settled h

theorem verifyConfigMutationSource_safe {source : File} (h : ∃ k f, Settled o w k f s) :
    Safe Consistent Interferes
      (fun r s => Sound s ∧ (r = .ok () → Verified o w source s))
      (verifyConfigMutationSource source) s := by
  have hs : Stable Interferes fun s => ∃ k f, Settled o w k f s := by
    rintro s s' ⟨k, f, h⟩ ⟨x, -, rfl⟩
    exact ⟨k, _, h.overwrite⟩
  have hi (s : Disk) (h : ∃ k f, Settled o w k f s) : Sound s := by
    obtain ⟨k, f, h⟩ := h
    exact .settled h
  have hsound : Stable Interferes Sound := Sound.stable
  refine Safe.bind (Q := fun r s => Sound s ∧
    ∀ f, r = .ok f → f.safe ∧ Glimpsed (fun s => ∃ k f, Settled o w k f s) (fun _ => True) f s) ?_ ?_ ?_
  · refine Safe.handle (readSafeWindowsFile_target (K := fun _ => True) hs
      (fun s h => (hi s h).consistent) ?_ h) ?_ ?_
    · rintro s ⟨k, f, h⟩
      have hf : s.files .target = some f := by simp [h.files, Layout.files]
      exact ⟨f, hf, trivial, h.told.inodes _ f hf, fun hn => (h.bytes hn).left⟩
    · rintro f s (⟨g, hr, hg, hgs⟩ | ⟨hr, -⟩)
      · obtain rfl : f = g := Except.ok.inj hr
        refine ⟨hi s hg.state, fun g hg' => ?_⟩
        obtain rfl := Except.ok.inj hg'
        exact ⟨hgs, hg⟩
      · cases hr
    · rintro e s (⟨_, hr, -⟩ | ⟨-, h⟩)
      · cases hr
      · exact Safe.of_raise hsound (fun s h => ⟨h, by simp⟩) (hi s h.state)
  · rintro f s ⟨-, h⟩
    obtain ⟨hsafe, h⟩ := h f rfl
    rw [require]
    split
    case isFalse => exact Safe.of_raise hsound (fun s h => ⟨h, by simp⟩) (hi s h.state)
    case isTrue hd =>
      have hinode : f.inode = source.inode := congrArg (·.identity.inode) hd
      refine Safe.of_pure Verified.stable (fun s h => ⟨h.sound, fun _ => h⟩) ?_
      obtain ⟨k, g, hg⟩ := h.state
      have hgt : s.files .target = some g := by simp [hg.files, Layout.files]
      refine ⟨⟨k, g, hg, ?_⟩, hinode ▸ h.known⟩
      obtain hf | ⟨g', hf, ho, hlt⟩ := h.current
      · obtain rfl : g = f := Option.some.inj (hgt.symm.trans hf)
        exact ⟨fun _ => hsafe, fun _ => hd⟩
      · obtain rfl : g = g' := Option.some.inj (hgt.symm.trans hf)
        refine ⟨fun he => ?_, fun hn => by simp [hn] at ho⟩
        exact absurd he (descriptor_ne (hinode ▸ Nat.ne_of_gt hlt))
  · rintro e s ⟨h, -⟩
    exact ⟨h, by simp⟩

-- The story of a publication begins where the target is what the publication is made from.
theorem Verified.announce (h : Verified o w p.source s) :
    ∃ o', o'.descriptor = p.source.descriptor ∧
      Staged o' p.content p.token none { s with story := p.story s } := by
  obtain ⟨k, f, h', hsafe, hf⟩ := h.settled
  have htarget : s.files .target = some f := by simp [h'.files, Layout.files]
  have hfiles : s.files = Layout.files ⟨p.token, some f, none, none, none, none⟩ := by
    rw [h'.files]
    exact Layout.files_congr _ rfl rfl p.token
  by_cases hd : f.descriptor = p.source.descriptor
  case pos =>
    have hstory : p.story s = ⟨f, p.content, none⟩ := by
      simp [Publication.story, htarget, hd, Option.filter]
    rw [hstory]
    exact ⟨f, hd, ⟨rfl, rfl, h'.told.inodes _ f htarget, h'.told.inodes, fun _ => hsafe hd, by simp⟩, hfiles⟩
  case neg =>
    have hstory : p.story s = ⟨p.source, p.content, s.story.outside⟩ := by
      simp [Publication.story, htarget, hd, Option.filter]
    obtain ⟨g, ho⟩ : ∃ g, s.story.outside = some g :=
      Option.ne_none_iff_exists'.mp fun hn => hd (hf hn)
    obtain rfl := h'.outside g ho
    rw [hstory]
    refine ⟨p.source, rfl, ⟨rfl, rfl, h.known, h'.told.inodes, by simp [ho], by simp [ho, hd]⟩, ?_⟩
    simpa [Disk.held, ho] using hfiles

theorem atomicWriteWindows_safe (h : Sound s) :
    Safe Consistent Interferes (fun _ s => Sound s) (atomicWriteWindows p) s := by
  have hs : Stable Interferes Sound := Sound.stable
  refine Safe.bind (recover_sound h) ?_ (fun _ _ h => h.sound)
  rintro d s ⟨_, -, h⟩
  by_cases hd : d = .manualTarget
  case pos =>
    rw [require, if_neg (not_not.mpr hd)]
    exact Safe.of_raise hs (fun _ h => h) h.sound
  case neg =>
    rw [require_bind hd]
    obtain ⟨k, f, h, -⟩ := h
    refine Safe.bind (verifyConfigMutationSource_safe ⟨k, f, h⟩) ?_ (fun _ _ h => h.left)
    rintro _ s ⟨-, h⟩
    refine Safe.bind (Q := fun r s => r = .ok () ∧ ∃ o', o'.descriptor = p.source.descriptor ∧
      Staged o' p.content p.token none s) ?_ ?_ (by simp)
    · intro s' hr
      have h := Verified.stable.many hr (h rfl)
      refine ⟨h.sound.consistent, ?_⟩
      obtain ⟨o', hd, h⟩ := h.announce
      exact Safe.of_pure Staged.stable (fun s h => ⟨rfl, o', hd, h⟩) h
    rintro _ s ⟨-, o', hd, h⟩
    refine Safe.bind (Q := fun r s => ∃ m, r = .ok (some m) ∧ m.safe ∧
      m.content = Codec.markerBytes (p.marker none) ∧ Staged o' p.content p.token (some m) s) ?_ ?_
      (by simp)
    · refine Safe.handle (Q := fun r s => ∃ m, r = .ok (some m) ∧ m.safe ∧
        m.content = Codec.markerBytes (p.marker none) ∧ Staged o' p.content p.token (some m) s)
        ?_ (fun _ _ h => h) (by simp)
      refine Safe.bind (writePrivateWindowsFile_safe Staged.writable h) ?_ (by simp)
      rintro _ s ⟨m, hr, hsafe, hcontent, h⟩
      obtain rfl := Except.ok.inj hr
      exact Safe.of_pure Staged.stable (fun s h => ⟨_, rfl, hsafe, hcontent, h⟩) h
    rintro _ s ⟨m, hr, hsafe, hcontent, h⟩
    obtain rfl := Except.ok.inj hr
    exact Safe.handle (publish_safe hd hsafe hcontent h) (fun _ _ h => h) fun _ _ => recoverFrom_safe

end Publishing

end Config
